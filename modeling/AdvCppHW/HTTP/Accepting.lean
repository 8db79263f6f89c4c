import AdvCppHW.AsyncTCP.ServerAsync
import AdvCppHW.HTTP.ClientView
import AdvCppHW.HTTP.WorkerRun

/-!
# Accepting a client fails halfway

`ThreadWork::accept` and `ServerAsync::accept` store a new client first, and then make the calls
that can throw.  Neither takes the client out again.

* `Held` — an object with the descriptors that are open in the process.
* `Worker.acceptHeld`, `ServerAsync.acceptHeld` — the members, with what `accept4` opens and the
  end of a temporary closes.
* `Worker.accept_cases`, `ServerAsync.accept_none`, `ServerAsync.accept_new` — how they end.
* `accepting_allOrNothing` — when nothing is left of a client whose acceptance has failed.
-/

namespace AdvCppHW

open Support

/-- An object, and the descriptors that are open in the process. -/
structure Held (σ : Type) where
  object : σ
  descriptors : Finset Int

/-- The open descriptors when the connection of a new client was put into a table: where the key was
taken, the socket is closed with the temporary. -/
def emplaced (taken : Bool) (fd : Int) (descriptors : Finset Int) : Finset Int :=
  if taken then (insert fd descriptors).erase fd else insert fd descriptors

theorem notMem_emplaced_iff {taken : Bool} {fd : Int} {descriptors : Finset Int} :
    fd ∉ emplaced taken fd descriptors ↔ taken = true := by
  cases taken with
  | true => simp [emplaced]
  | false => simp [emplaced]

namespace HTTP

/-! ## Workers -/

/-- `accept`, with the open descriptors.  Only `accept4` and `emplace` change them. -/
def Worker.acceptHeld (h : Held Worker) (env : Env) : Outcome (Held Worker) :=
  let descriptors :=
    if env.accepted.fd < 0 then h.descriptors
    else emplaced (decide (env.accepted.fd ∈ h.object.work.m_connections))
      env.accepted.fd h.descriptors
  (h.object.accept env).map (Held.mk · descriptors)

/-- The tables, and what is registered in the epoll. -/
structure ThreadWork.SameTables (t t' : ThreadWork) : Prop where
  connections : t'.m_connections = t.m_connections
  coroutines : t'.m_coroutines = t.m_coroutines
  idle : t'.m_idleTime = t.m_idleTime
  registered : t'.registered = t.registered

/-- An exception that leaves `accept` leaves nothing of the client behind. -/
def Worker.AllOrNothing (h : Held Worker) (env : Env) : Prop :=
  ∀ e h', Worker.acceptHeld h env = .threw e h' →
    ThreadWork.SameTables h.object.work h'.object.work ∧ env.accepted.fd ∉ h'.descriptors

/-- What `accept` comes to for a new descriptor. -/
theorem Worker.accept_cases (w : Worker) {env : Env} (hfd : ¬ env.accepted.fd < 0) :
    (env.accepted.fd ∉ w.work.m_connections ∧ env.added = true ∧ ∃ w', w.accept env = .ok w') ∨
      ((env.accepted.fd ∈ w.work.m_connections ∨ env.added = false) ∧
        ∃ e, w.accept env = .threw e ⟨w.work.emplace env.accepted, w.ordinator⟩) := by
  by_cases htaken : env.accepted.fd ∈ w.work.m_connections
  · refine Or.inr ⟨Or.inl htaken, .DescriptorError "Error adding connection to epoll!", ?_⟩
    simp only [accept, if_neg hfd, htaken, not_true, decide_false, Bool.and_false,
      ThreadWork.addToEpoll]
    rfl
  · cases hadded : env.added with
    | true =>
        refine Or.inl ⟨htaken, rfl, ?_⟩
        simp only [accept, if_neg hfd, htaken, not_false_iff, decide_true, hadded, Bool.and_true,
          ThreadWork.addToEpoll, if_true, Outcome.map_ok, Outcome.andThen_ok]
        exact ⟨_, rfl⟩
    | false =>
        refine Or.inr ⟨Or.inr rfl, .DescriptorError "Error adding connection to epoll!", ?_⟩
        simp only [accept, if_neg hfd, hadded, Bool.false_and, ThreadWork.addToEpoll]
        rfl

theorem Worker.allOrNothing_iff (h : Held Worker) (env : Env) :
    Worker.AllOrNothing h env ↔
      env.accepted.fd < 0 ∨ env.accepted.fd ∈ h.object.work.m_connections ∨ env.added = true := by
  unfold Worker.AllOrNothing Worker.acceptHeld
  by_cases hfd : env.accepted.fd < 0
  · refine iff_of_true ?_ (Or.inl hfd)
    intro e h' hthrew
    rw [Worker.accept_refused hfd] at hthrew
    cases hthrew
  · simp only [hfd, if_false, false_or]
    rcases h.object.accept_cases hfd with ⟨hfree, hadded, w', hok⟩ | ⟨hfails, e, hthrew⟩
    · refine iff_of_true ?_ (Or.inr hadded)
      intro e h' hthrew
      rw [hok] at hthrew
      cases hthrew
    · rw [hthrew]
      constructor
      · intro hall
        obtain ⟨-, hclosed⟩ := hall e _ rfl
        exact Or.inl (of_decide_eq_true (notMem_emplaced_iff.mp hclosed))
      · intro hor e' h' heq
        cases heq
        have htaken : env.accepted.fd ∈ h.object.work.m_connections := by
          rcases hor with htaken | hadded
          · exact htaken
          · rcases hfails with htaken | hnot
            · exact htaken
            · rw [hadded] at hnot
              cases hnot
        have hsame : h.object.work.emplace env.accepted = h.object.work := if_pos htaken
        rw [hsame]
        exact ⟨⟨rfl, rfl, rfl, rfl⟩, notMem_emplaced_iff.mpr (decide_eq_true htaken)⟩

end HTTP

namespace AsyncTCP

/-! ## The asynchronous server -/

/-- `accept`, with the open descriptors.  Only `accept4` and `try_emplace` change them. -/
def ServerAsync.acceptHeld (h : Held ServerAsync) (env : Env) : Outcome (Held ServerAsync) :=
  let descriptors :=
    if !h.object.isOpened || env.accepted.fd < 0 then h.descriptors
    else emplaced (decide (env.accepted.fd ∈ h.object.m_connections)) env.accepted.fd h.descriptors
  (h.object.accept env).map (Held.mk · descriptors)

/-- An exception that leaves `accept` leaves nothing of the client behind, if there was one. -/
def ServerAsync.AllOrNothing (h : Held ServerAsync) (env : Env) : Prop :=
  ∀ e h', ServerAsync.acceptHeld h env = .threw e h' →
    h'.object.m_connections = h.object.m_connections ∧ h'.object.registered = h.object.registered ∧
      (h.object.isOpened = true → 0 ≤ env.accepted.fd → env.accepted.fd ∉ h'.descriptors)

/-- The calls behind `try_emplace` succeed. -/
def ServerAsync.CallsSucceed (s : ServerAsync) (env : Env) : Prop :=
  (s.m_epollfd.isOpened = true → env.added = true) ∧ env.recieveTimeoutSet = true ∧
    env.sendTimeoutSet = true

/-- Without a client, or with one whose key is taken, nothing is stored. -/
theorem ServerAsync.accept_none {s : ServerAsync} {env : Env}
    (h : s.isOpened = false ∨ env.accepted.fd < 0 ∨ env.accepted.fd ∈ s.m_connections) :
    ∃ e s', s.accept env = .threw e s' ∧ s'.m_connections = s.m_connections ∧
      (s' = s ∨ s'.registered = s.registered.erase env.accepted.fd) := by
  unfold accept
  cases hopen : s.isOpened with
  | false => exact ⟨_, s, rfl, rfl, Or.inl rfl⟩
  | true =>
      simp only [Bool.not_true, Bool.false_eq_true, if_false]
      by_cases hfd : env.accepted.fd < 0
      · rw [if_pos hfd]
        exact ⟨_, s, rfl, rfl, Or.inl rfl⟩
      · have htaken : env.accepted.fd ∈ s.m_connections := by
          simpa [hopen, hfd] using h
        have hemplace : s.try_emplace env.accepted =
            (false, { s with registered := s.registered.erase env.accepted.fd }) := if_pos htaken
        rw [if_neg hfd, hemplace]
        exact ⟨_, _, rfl, rfl, Or.inr rfl⟩

theorem ServerAsync.addToEpoll_cases (s : ServerAsync) (fd : Int) (added : Bool) :
    ((s.m_epollfd.isOpened = true → added = true) ∧
        ∃ s', s.addToEpoll fd added = .ok s' ∧ s'.m_connections = s.m_connections) ∨
      (¬ (s.m_epollfd.isOpened = true → added = true) ∧ ∃ e, s.addToEpoll fd added =
        .threw e s) := by
  unfold addToEpoll
  cases s.m_epollfd.isOpened with
  -- on a closed epoll `addToEpoll` does nothing
  | false => exact Or.inl ⟨by simp, s, rfl, rfl⟩
  | true =>
      cases added with
      | true => exact Or.inl ⟨by simp, _, rfl, rfl⟩
      | false => exact Or.inr ⟨by simp, _, rfl⟩

theorem ServerAsync.setTimeout_new {s : ServerAsync} {fd : Int} (hfd : ¬ fd < 0) {garbage : UInt32}
    (hlookup : s.m_connections.lookup fd = some (.ofFD fd garbage)) (spare : NewSocket)
    (set : Bool) :
    s.setTimeout fd spare set =
      if set then .ok s else .threw (.NetworkError "Error setting timeout!") s := by
  have hopened : (ConnectionAsync.ofFD fd garbage).m_socket.isOpened = true := by
    have hne : fd ≠ -1 := by omega
    exact decide_eq_true hne
  have helement : s.element fd spare = (.ofFD fd garbage, s) := by
    unfold element
    rw [hlookup]
  simp only [setTimeout, helement, hopened]
  rfl

/-- A new client is stored, whatever comes then. -/
theorem ServerAsync.accept_new {s : ServerAsync} {env : Env} (hopen : s.isOpened = true)
    (hfd : ¬ env.accepted.fd < 0) (hfree : env.accepted.fd ∉ s.m_connections) :
    (s.CallsSucceed env ∧ ∃ s', s.accept env = .ok s') ∨
      (¬ s.CallsSucceed env ∧ ∃ e s', s.accept env = .threw e s') := by
  let c := ConnectionAsync.ofFD env.accepted.fd env.accepted.garbage
  let s₁ : ServerAsync := { s with m_connections := s.m_connections.assign env.accepted.fd c }
  have hemplace : s.try_emplace env.accepted = (true, s₁) := if_neg hfree
  have haccept : s.accept env = ((s₁.addToEpoll env.accepted.fd env.added).andThen fun s =>
      s.setTimeout env.accepted.fd env.spare env.recieveTimeoutSet).andThen fun s =>
        s.setTimeout env.accepted.fd env.spare env.sendTimeoutSet := by
    simp only [accept, hopen, Bool.not_true, Bool.false_eq_true, if_false, if_neg hfd, hemplace]
  rw [haccept]
  unfold CallsSucceed
  rcases s₁.addToEpoll_cases env.accepted.fd env.added with
    ⟨hregistered, s₂, hok, hconnections⟩ | ⟨hnot, e, hthrew⟩
  · -- both timeouts are set on the connection that was just stored
    have hlookup : s₂.m_connections.lookup env.accepted.fd =
        some (.ofFD env.accepted.fd env.accepted.garbage) := by
      rw [hconnections]
      exact OrdMap.lookup_assign_self _ _ _
    rw [hok, Outcome.andThen_ok, setTimeout_new hfd hlookup]
    cases hrecieve : env.recieveTimeoutSet with
    | false => exact Or.inr ⟨by simp, _, _, rfl⟩
    | true =>
        rw [if_pos rfl, Outcome.andThen_ok, setTimeout_new hfd hlookup]
        cases hsend : env.sendTimeoutSet with
        | false => exact Or.inr ⟨by simp, _, _, rfl⟩
        | true => exact Or.inl ⟨⟨hregistered, rfl, rfl⟩, _, rfl⟩
  · rw [hthrew]
    exact Or.inr ⟨fun h => hnot h.1, _, _, rfl⟩

/-- `accept4` returns a descriptor that was not open, and closed ones are registered nowhere. -/
def ServerAsync.FreshDescriptor (s : ServerAsync) (env : Env) : Prop :=
  env.accepted.fd ∉ s.registered

theorem ServerAsync.allOrNothing_iff (h : Held ServerAsync) {env : Env}
    (hfresh : h.object.FreshDescriptor env) :
    ServerAsync.AllOrNothing h env ↔ h.object.isOpened = false ∨ env.accepted.fd < 0 ∨
      env.accepted.fd ∈ h.object.m_connections ∨ h.object.CallsSucceed env := by
  unfold ServerAsync.AllOrNothing ServerAsync.acceptHeld
  by_cases hnone : h.object.isOpened = false ∨ env.accepted.fd < 0 ∨
    env.accepted.fd ∈ h.object.m_connections
  · obtain ⟨e, s', hthrew, hconnections, hregistered⟩ := accept_none hnone
    have hkept : s'.registered = h.object.registered := by
      rcases hregistered with rfl | herased
      · rfl
      · rw [herased, Finset.erase_eq_of_notMem hfresh]
    rw [hthrew]
    refine iff_of_true ?_ (by tauto)
    intro e' h' heq
    cases heq
    refine ⟨hconnections, hkept, ?_⟩
    intro hopen hfd
    have htaken : env.accepted.fd ∈ h.object.m_connections := by
      simpa [hopen, Int.not_lt.mpr hfd] using hnone
    simp only [hopen, Int.not_lt.mpr hfd, Bool.not_true, Bool.false_or, decide_false,
      Bool.false_eq_true, if_false]
    exact notMem_emplaced_iff.mpr (decide_eq_true htaken)
  · obtain ⟨hclosed, hfd, hfree⟩ : h.object.isOpened ≠ false ∧ ¬ env.accepted.fd < 0 ∧
        env.accepted.fd ∉ h.object.m_connections := by simpa using hnone
    have hopen : h.object.isOpened = true := by simpa using hclosed
    simp only [hopen, hfd, hfree, false_or, Bool.true_eq_false, Bool.not_true, decide_false,
      Bool.or_false, Bool.false_eq_true, if_false]
    rcases accept_new hopen hfd hfree with ⟨hcalls, s', hok⟩ | ⟨hnot, e, s', hthrew⟩
    · refine iff_of_true ?_ hcalls
      intro e h' heq
      rw [hok] at heq
      cases heq
    · refine iff_of_false ?_ hnot
      intro hall
      rw [hthrew] at hall
      obtain ⟨-, -, hdescriptor⟩ := hall e _ rfl
      have htaken := notMem_emplaced_iff.mp (hdescriptor trivial (Int.not_lt.mp hfd))
      cases htaken

end AsyncTCP

namespace HTTP

open AsyncTCP

/-- **Accepting is all or nothing**, in the members of both servers, exactly when no call behind the
storing of the client fails; or there is no client, or one whose descriptor is a key already. -/
theorem accepting_allOrNothing (h : Held Worker) (env : Env) :
    (Worker.AllOrNothing h env ↔
      env.accepted.fd < 0 ∨ env.accepted.fd ∈ h.object.work.m_connections ∨ env.added = true) ∧
    ∀ (server : Held ServerAsync) (calls : AsyncTCP.Env), server.object.FreshDescriptor calls →
      (ServerAsync.AllOrNothing server calls ↔
        server.object.isOpened = false ∨ calls.accepted.fd < 0 ∨
          calls.accepted.fd ∈ server.object.m_connections ∨ server.object.CallsSucceed calls) := by
  constructor
  · exact Worker.allOrNothing_iff h env
  · intro server calls hfresh
    exact ServerAsync.allOrNothing_iff server hfresh

/-- A server on the descriptors 3 and 4. -/
def heldServer : Held ServerAsync := ⟨.opened 3 4 true, {3, 4}⟩

/-- The first client of a worker and of a server is accepted, and all calls succeed. -/
theorem accepting_allOrNothing_first :
    Worker.AllOrNothing ⟨{}, {3}⟩ { accepted := ⟨5, 0⟩, script := peerGone } ∧
      ServerAsync.AllOrNothing heldServer { accepted := ⟨5, 0⟩ } := by
  obtain ⟨hworker, hserver⟩ :=
    accepting_allOrNothing ⟨{}, {3}⟩ { accepted := ⟨5, 0⟩, script := peerGone }
  have hfresh : heldServer.object.FreshDescriptor { accepted := ⟨5, 0⟩ } := by
    unfold ServerAsync.FreshDescriptor
    decide
  constructor
  · apply hworker.mpr
    exact Or.inr (Or.inr rfl)
  · apply (hserver heldServer { accepted := ⟨5, 0⟩ } hfresh).mpr
    exact Or.inr (Or.inr (Or.inr ⟨fun _ => rfl, rfl, rfl⟩))

/-- The first client of a worker, and the first client of a server, cannot be registered in the
epoll: both stay in the table, with an open socket. -/
theorem unregistered_staysStored :
    (¬ ∀ (h : Held Worker) (env : Env), Worker.AllOrNothing h env) ∧
      ¬ ∀ (h : Held ServerAsync) (env : AsyncTCP.Env), h.object.FreshDescriptor env →
        ServerAsync.AllOrNothing h env := by
  constructor
  · intro h
    obtain ⟨htables, -⟩ :=
      h ⟨{}, {3}⟩ { accepted := ⟨5, 0⟩, added := false, script := peerGone } _ _ rfl
    have hstored := htables.connections
    revert hstored
    decide
  · intro h
    obtain ⟨hstored, -⟩ := h heldServer { accepted := ⟨5, 0⟩, added := false }
      (by unfold ServerAsync.FreshDescriptor; decide) _ _ rfl
    revert hstored
    decide

end HTTP
end AdvCppHW
