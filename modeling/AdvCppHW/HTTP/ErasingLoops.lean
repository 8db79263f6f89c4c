import AdvCppHW.Cpp.Traversal
import AdvCppHW.HTTP.ClientView
import AdvCppHW.HTTP.WorkerRun

/-!
# Loops that erase the element they stand on

The sweep over `m_idleTime` and the two loops over `m_connections`, at the end of `run` and in
`~ThreadWork`, call `disconnectClient`, which erases from the container that is gone through.  Here
the iterators are taken strictly: the loop has nothing to go on from when its element was erased.

* `idleLoop`, `connectionLoop` — the loops; `idleLoop_erased_iff`, `connectionLoop_erased_iff` —
  when they advance from an erased element.
* `idleLoop_of_noneTimedOut` — where it does not, the sweep is the one of `ThreadWork`.
* `Life` — a worker from its construction to its destructor; `Life.run_erased_iff` — whole lives.
-/

namespace AdvCppHW
namespace HTTP

open Support

namespace ThreadWork

/-! ## The loops -/

/-- The body of the loop in `dropTimeoutedConnections`. -/
def idleTurn (server : BaseHTTPServer) (spare : NewSocket) (clock : Nat → Int) (before : Nat)
    (i : Int × Int) (t : ThreadWork) : Turn ThreadWork :=
  if timeDiff (clock before) i.1 > server.m_timeout then
    match t.disconnectClient i.2 spare with
    | .ok t' => .goesOn t'
    | ended => .leaves ended
  else
    -- `m_idleTime.erase(m_idleTime.begin(), i)`
    .leaves (.ok { t with m_idleTime :=
      ⟨t.m_idleTime.entries.filter fun e => i.1 ≤ e.1, t.m_idleTime.sorted.filter _⟩ })

/-- The loop in `dropTimeoutedConnections`. -/
def idleLoop (server : BaseHTTPServer) (spare : NewSocket) (clock : Nat → Int) :
    ThreadWork → Option (TraversalEnd ThreadWork) :=
  traverse .ascending m_idleTime (idleTurn server spare clock)

/-- The body of the loops over `m_connections`. -/
def connectionTurn (spare : NewSocket) (_ : Nat) (d : Int × Element) (t : ThreadWork) :
    Turn ThreadWork :=
  match t.disconnectClient d.1 spare with
  | .ok t' => .goesOn t'
  | ended => .leaves ended

/-- The loop at the end of `run`, and the one in `~ThreadWork`, in an order of
the `std::unordered_map`. -/
def connectionLoop (order : IterationOrder Int Element) (spare : NewSocket) :
    ThreadWork → Option (TraversalEnd ThreadWork) :=
  traverse order m_connections (connectionTurn spare)

/-! ## What `disconnectClient` erases -/

/-- In any tables, `disconnectClient` ends with the erasure from `m_idleTime`; by then
the connection is gone. -/
theorem disconnectClient_eq (t : ThreadWork) (fd : Int) (spare : NewSocket) :
    ∃ t₀ : ThreadWork, t.disconnectClient fd spare = t₀.eraseIdle fd ∧
      t₀.m_idleTime = t.m_idleTime ∧
      fd ∉ t₀.m_connections := by
  obtain ⟨el, t₁, helement, hidle⟩ : ∃ el t₁, (t.removeFromEpoll fd).element fd spare = (el, t₁) ∧
      t₁.m_idleTime = t.m_idleTime := by
    unfold element
    split
    · exact ⟨_, _, rfl, rfl⟩
    · exact ⟨_, _, rfl, rfl⟩
  have hlookup := lookup_update t₁ fd el el.conn.close
  refine ⟨{ (t₁.update fd el el.conn.close).eraseConnection fd with m_coroutines :=
    ((t₁.update fd el el.conn.close).eraseConnection fd).m_coroutines.erase fd }, ?_, ?_, ?_⟩
  · rw [disconnectClient, helement]
  · show ((t₁.update fd el el.conn.close).eraseConnection fd).m_idleTime = _
    rw [eraseConnection, hlookup]
    exact hidle
  · show fd ∉ ((t₁.update fd el el.conn.close).eraseConnection fd).m_connections
    rw [eraseConnection, hlookup, OrdMap.notMem_iff]
    exact OrdMap.lookup_erase_self _ _

theorem eraseIdle_connections {t t' : ThreadWork} {fd : Int} (h : t.eraseIdle fd = .ok t') :
    t'.m_connections = t.m_connections := by
  rcases eraseIdle_cases t fd with ⟨hundef, -⟩ | ⟨time, -, hok⟩
  · rw [hundef] at h
    cases h
  · rw [hok] at h
    cases h
    rfl

/-- The connection that the loop stands on is erased. -/
theorem connectionTurn_erases {t t' : ThreadWork} {spare : NewSocket} {before : Nat}
    {d : Int × Element}
    (h : connectionTurn spare before d t = .goesOn t') : d.1 ∉ t'.m_connections := by
  obtain ⟨t₀, heq, -, hgone⟩ := disconnectClient_eq t d.1 spare
  unfold connectionTurn at h
  cases hdisconnect : t.disconnectClient d.1 spare with
  | ok t₁ =>
      rw [hdisconnect] at h
      cases h
      rw [heq] at hdisconnect
      rwa [eraseIdle_connections hdisconnect]
  | threw e t₁ =>
      rw [hdisconnect] at h
      cases h
  | undefined why =>
      rw [hdisconnect] at h
      cases h

/-- `find_if` finds the first idle time there is, when the client is the one that it is of. -/
theorem disconnectClient_first {t : ThreadWork} {since fd : Int} {rest : List (Int × Int)}
    (h : t.m_idleTime.entries = (since, fd) :: rest) (spare : NewSocket) :
    ∃ t', t.disconnectClient fd spare = .ok t' ∧ since ∉ t'.m_idleTime := by
  obtain ⟨t₀, heq, hidle, -⟩ := disconnectClient_eq t fd spare
  have hfound : t₀.idleSince? fd = some since := by
    rw [idleSince?, hidle, h, List.find?_cons_of_pos (by simp)]
    rfl
  refine ⟨_, by rw [heq, eraseIdle, hfound], ?_⟩
  rw [OrdMap.notMem_iff]
  exact OrdMap.lookup_erase_self _ _

/-! ## When a loop advances from an erased element -/

/-- The client that has been idle for longest has not been idle for too long. -/
def NoneTimedOut (server : BaseHTTPServer) (clock : Nat → Int) (t : ThreadWork) : Prop :=
  ∀ i, t.m_idleTime.entries.head? = some i → timeDiff (clock 0) i.1 ≤ server.m_timeout

/-- There is no connection, or the first one in this order has no idle
time, and its erasure fails. -/
def NoneErased (order : IterationOrder Int Element) (t : ThreadWork) : Prop :=
  ∀ d, (order.elements t.m_connections).head? = some d → ∀ time, time ∉ t.times d.1

theorem idleLoop_of_noneTimedOut {server : BaseHTTPServer} {clock : Nat → Int} {t : ThreadWork}
    (h : NoneTimedOut server clock t) (spare : NewSocket) :
    idleLoop server spare clock t =
      some (.ended (t.dropTimeoutedConnections server spare clock)) := by
  unfold NoneTimedOut at h
  unfold idleLoop dropTimeoutedConnections
  cases hentries : t.m_idleTime.entries with
  | nil => exact traverse_nil _ _ _ hentries
  | cons i rest =>
      have hyoung := h i (by rw [hentries]; rfl)
      have hturn : idleTurn server spare clock 0 i t = .leaves (.ok { t with m_idleTime :=
          ⟨t.m_idleTime.entries.filter fun e => i.1 ≤ e.1, t.m_idleTime.sorted.filter _⟩ }) :=
        if_neg (Int.not_lt.mpr hyoung)
      have hmem : i.1 ∈ t.m_idleTime :=
        OrdMap.mem_of_lookup (OrdMap.lookup_eq_some_iff.mpr (hentries ▸ List.mem_cons_self))
      rw [traverse_of_firstErased hentries, hturn, sweep, if_neg (not_not_intro hmem),
        if_neg (Int.not_lt.mpr hyoung)]
      intro s' hs'
      rw [hturn] at hs'
      cases hs'

theorem idleLoop_of_timedOut {server : BaseHTTPServer} {clock : Nat → Int} {t : ThreadWork}
    (h : ¬ NoneTimedOut server clock t) (spare : NewSocket) :
    idleLoop server spare clock t = some .elementErased := by
  obtain ⟨⟨since, fd⟩, hfirst⟩ := not_forall.mp h
  obtain ⟨hhead, hnot⟩ := Classical.not_imp.mp hfirst
  have hlate : timeDiff (clock 0) since > server.m_timeout := Int.not_le.mp hnot
  obtain ⟨rest, hentries⟩ := List.head?_eq_some_iff.mp hhead
  obtain ⟨t', hok, hgone⟩ := disconnectClient_first hentries spare
  have hturn : idleTurn server spare clock 0 (since, fd) t = .goesOn t' := by
    rw [idleTurn, if_pos hlate, hok]
  unfold idleLoop
  rw [traverse_of_firstErased hentries, hturn]
  intro s' hs'
  rw [hturn] at hs'
  cases hs'
  exact hgone

/-- The loop over the idle times advances from an erased element exactly when it drops a client. -/
theorem idleLoop_erased_iff (server : BaseHTTPServer) (spare : NewSocket) (clock : Nat → Int)
    (t : ThreadWork) :
    idleLoop server spare clock t = some .elementErased ↔ ¬ NoneTimedOut server clock t := by
  constructor
  · intro h hyoung
    rw [idleLoop_of_noneTimedOut hyoung] at h
    cases h
  · intro h
    exact idleLoop_of_timedOut h spare

theorem connectionLoop_cases (order : IterationOrder Int Element) (spare : NewSocket)
    (t : ThreadWork) :
    (t.m_connections.entries = [] ∧ NoneErased order t ∧
        connectionLoop order spare t = some (.ended (.ok t))) ∨
      (t.m_connections.entries ≠ [] ∧ NoneErased order t ∧
        connectionLoop order spare t = some (.ended (.undefined .eraseOfEnd))) ∨
      t.m_connections.entries ≠ [] ∧ ¬ NoneErased order t ∧
        connectionLoop order spare t = some .elementErased := by
  unfold NoneErased connectionLoop
  rw [ne_eq, ← order.elements_eq_nil_iff]
  cases hentries : order.elements t.m_connections with
  | nil => exact Or.inl ⟨rfl, by simp, traverse_nil _ _ _ hentries⟩
  | cons d rest =>
      obtain ⟨t₀, heq, hidle, -⟩ := disconnectClient_eq t d.1 spare
      have htimes : ∀ time, time ∈ t.times d.1 ↔ time ∈ t₀.times d.1 := by
        intro time
        rw [mem_times, mem_times, hidle]
      have hgone : ∀ t', connectionTurn spare 0 d t = .goesOn t' → d.1 ∉ t'.m_connections :=
        fun t' ht' => connectionTurn_erases ht'
      have hloop := traverse_of_firstErased hentries hgone
      rcases eraseIdle_cases t₀ d.1 with ⟨hundef, hnone⟩ | ⟨time, htime, hok⟩
      · -- `m_idleTime.erase(end())` comes before the iterator is advanced
        have hturn : connectionTurn spare 0 d t = .leaves (.undefined .eraseOfEnd) := by
          rw [connectionTurn, heq, hundef]
        refine Or.inr (Or.inl ⟨by simp, ?_, by rw [hloop, hturn]⟩)
        intro d' hd' time htime
        cases hd'
        exact hnone time ((htimes time).mp htime)
      · have hturn : ∃ t', connectionTurn spare 0 d t = .goesOn t' :=
          ⟨_, by rw [connectionTurn, heq, hok]⟩
        obtain ⟨t', hturn⟩ := hturn
        refine Or.inr (Or.inr ⟨by simp, ?_, by rw [hloop, hturn]⟩)
        intro h
        exact h d rfl time ((htimes time).mpr htime)

/-- A loop over the connections advances from an erased element when it disconnects a client. -/
theorem connectionLoop_erased_iff (order : IterationOrder Int Element) (spare : NewSocket)
    (t : ThreadWork) :
    connectionLoop order spare t = some .elementErased ↔ ¬ NoneErased order t := by
  rcases connectionLoop_cases order spare t with ⟨-, hnone, h⟩ | ⟨-, hnone, h⟩ | ⟨-, hnone, h⟩
  · rw [h]
    exact iff_of_false nofun (not_not_intro hnone)
  · rw [h]
    exact iff_of_false nofun (not_not_intro hnone)
  · exact iff_of_true h hnone

/-- It returns only where it has nothing to do. -/
theorem connectionLoop_returns_iff (order : IterationOrder Int Element) (spare : NewSocket)
    (t : ThreadWork) :
    (∃ t', connectionLoop order spare t = some (.ended (.ok t'))) ↔
      t.m_connections.entries = [] := by
  rcases connectionLoop_cases order spare t with ⟨hempty, -, h⟩ | ⟨hempty, -, h⟩ | ⟨hempty, -, h⟩
  · exact iff_of_true ⟨t, h⟩ hempty
  · refine iff_of_false ?_ hempty
    rintro ⟨t', ht'⟩
    rw [h] at ht'
    cases ht'
  · refine iff_of_false ?_ hempty
    rintro ⟨t', ht'⟩
    rw [h] at ht'
    cases ht'

end ThreadWork

/-! ## Whole lives -/

open ThreadWork

/-- Where a worker is, from the beginning of `run` on. -/
inductive Life where
  | running (s : Running)
  /-- `run` has gone through the loop behind its `while` loop. -/
  | left (w : Worker)
  | destroyed
deriving DecidableEq

inductive LifeAct where
  /-- A step of the `while` loop. -/
  | loop (act : Act)
  /-- `m_shutdown` is up, and the loop behind the `while` loop is run. -/
  | leave (order : IterationOrder Int Element) (spare : NewSocket)
  /-- `~ThreadWork`, after `run` or an early return from it. -/
  | destroy (order : IterationOrder Int Element) (spare : NewSocket)

/-- What a step leads to. -/
inductive LifeNext where
  | goesOn (s : Life)
  | terminated (e : Exception)
  | undefined (why : UndefinedBehaviour)
  | elementErased
deriving DecidableEq

def LifeNext.ofNext : Next → LifeNext
  | .goesOn s => .goesOn (.running s)
  | .terminated e => .terminated e
  | .undefined why => .undefined why

namespace Life

/-- The sweep at the top of the `while` loop. -/
def dropStep (server : BaseHTTPServer) (w : Worker) (spare : NewSocket) (clock : Nat → Int) :
    Option LifeNext :=
  (idleLoop server spare clock w.work).map fun
    | .elementErased => .elementErased
    | .ended x => .ofNext (caught .waiting (x.map (Worker.mk · w.ordinator)))

/-- A loop over the connections, and what is done with its end. -/
def connectionStep (w : Worker) (order : IterationOrder Int Element) (spare : NewSocket)
    (behind : Outcome ThreadWork → LifeNext) : Option LifeNext :=
  (connectionLoop order spare w.work).map fun
    | .elementErased => .elementErased
    | .ended x => behind x

/-- The loop behind the `while` loop. -/
def leaveStep (w : Worker) (order : IterationOrder Int Element) (spare : NewSocket) :
    Option LifeNext :=
  connectionStep w order spare fun
    | .ok t => .goesOn (.left ⟨t, w.ordinator⟩)
    | .threw e _ => .terminated e
    | .undefined why => .undefined why

/-- The loop of the destructor, which catches every exception. -/
def destroyStep (w : Worker) (order : IterationOrder Int Element) (spare : NewSocket) :
    Option LifeNext :=
  connectionStep w order spare fun
    | .ok _ => .goesOn .destroyed
    | .threw _ _ => .goesOn .destroyed
    | .undefined why => .undefined why

/-- The steps of a worker; `none` when the step is not the next one. -/
def step (server : BaseHTTPServer) : Life → LifeAct → Option LifeNext
  | .running s, .loop act =>
      match s.point, act with
      | .top, .drop spare clock => dropStep server s.worker spare clock
      | _, _ => (s.step server act).map .ofNext
  | .running s, .leave order spare =>
      if s.point = .top then leaveStep s.worker order spare else none
  | .running s, .destroy order spare =>
      if s.point = .top then destroyStep s.worker order spare else none
  | .left w, .destroy order spare => destroyStep w order spare
  | _, _ => none

/-- Step after step, up to one behind which the worker does not go on. -/
def run (server : BaseHTTPServer) (s : Life) : List LifeAct → Option LifeNext
  | [] => some (.goesOn s)
  | act :: acts =>
      match s.step server act with
      | some (.goesOn s') => run server s' acts
      | ended => ended

/-- The step is no sweep that drops a client, and no loop over connections with
a first client to drop. -/
def KeepsElement (server : BaseHTTPServer) : Life → LifeAct → Prop
  | .running s, .loop (.drop _ clock) => s.point = .top → NoneTimedOut server clock s.worker.work
  | .running s, .leave order _ => s.point = .top → NoneErased order s.worker.work
  | .running s, .destroy order _ => s.point = .top → NoneErased order s.worker.work
  | .left w, .destroy order _ => NoneErased order w.work
  | _, _ => True

/-- Every step of the run has this property. -/
def EveryStep (server : BaseHTTPServer) (P : Life → LifeAct → Prop) (s : Life) : List LifeAct → Prop
  | [] => True
  | act :: acts => P s act ∧ ∀ s', s.step server act = some (.goesOn s') →
    EveryStep server P s' acts

theorem ofNext_ne_erased (next : Next) : LifeNext.ofNext next ≠ .elementErased := by
  cases next with
  | goesOn s => nofun
  | terminated e => nofun
  | undefined why => nofun

/-- Without a client to drop, the sweep is the one of `Running`. -/
theorem dropStep_of_noneTimedOut {server : BaseHTTPServer} {clock : Nat → Int} {w : Worker}
    (h : NoneTimedOut server clock w.work) (spare : NewSocket) :
    dropStep server w spare clock =
      ((⟨w, .top⟩ : Running).step server (.drop spare clock)).map .ofNext := by
  rw [dropStep, idleLoop_of_noneTimedOut h]
  rfl

theorem dropStep_of_timedOut {server : BaseHTTPServer} {clock : Nat → Int} {w : Worker}
    (h : ¬ NoneTimedOut server clock w.work) (spare : NewSocket) :
    dropStep server w spare clock = some .elementErased := by
  rw [dropStep, idleLoop_of_timedOut h]
  rfl

theorem connectionStep_erased_iff {w : Worker} {order : IterationOrder Int Element}
    {spare : NewSocket} {behind : Outcome ThreadWork → LifeNext}
    (hbehind : ∀ x, behind x ≠ .elementErased) :
    connectionStep w order spare behind = some .elementErased ↔ ¬ NoneErased order w.work := by
  rw [← connectionLoop_erased_iff order spare, connectionStep, Option.map_eq_some_iff]
  constructor
  · rintro ⟨e, he, herased⟩
    cases e with
    | elementErased => exact he
    | ended x => exact absurd herased (hbehind x)
  · intro h
    exact ⟨.elementErased, h, rfl⟩

theorem leaveStep_erased_iff (w : Worker) (order : IterationOrder Int Element) (spare : NewSocket) :
    leaveStep w order spare = some .elementErased ↔ ¬ NoneErased order w.work := by
  apply connectionStep_erased_iff
  intro x
  cases x with
  | ok t => nofun
  | threw e t => nofun
  | undefined why => nofun

theorem destroyStep_erased_iff (w : Worker) (order : IterationOrder Int Element)
    (spare : NewSocket) :
    destroyStep w order spare = some .elementErased ↔ ¬ NoneErased order w.work := by
  apply connectionStep_erased_iff
  intro x
  cases x with
  | ok t => nofun
  | threw e t => nofun
  | undefined why => nofun

/-- The other steps of the `while` loop go through no container. -/
theorem step_loop (server : BaseHTTPServer) (s : Running) (act : Act) :
    (∃ spare clock, s.point = .top ∧ act = .drop spare clock) ∨
      (Life.running s).step server (.loop act) = (s.step server act).map .ofNext ∧
        KeepsElement server (.running s) (.loop act) := by
  by_cases hdrop : ∃ spare clock, s.point = .top ∧ act = .drop spare clock
  · exact Or.inl hdrop
  · right
    constructor
    · unfold step
      dsimp only
      split
      · next spare clock hpoint => exact absurd ⟨spare, clock, hpoint, rfl⟩ hdrop
      · rfl
    · cases act with
      | drop spare clock => exact fun hpoint => absurd ⟨spare, clock, hpoint, rfl⟩ hdrop
      | wait result => trivial
      | handle env => trivial
      | finish => trivial

/-- One step, in any state. -/
theorem step_erased_iff (server : BaseHTTPServer) (s : Life) (act : LifeAct) :
    s.step server act = some .elementErased ↔ ¬ KeepsElement server s act := by
  have hguarded : ∀ {p : Prop} [Decidable p] {x : Option LifeNext} {safe : Prop},
      (x = some .elementErased ↔ ¬ safe) →
        ((if p then x else none) = some .elementErased ↔ ¬ (p → safe)) := by
    intro p _ x safe h
    by_cases hp : p
    · simp [hp, h]
    · simp [hp]
  cases s with
  | running s =>
      cases act with
      | leave order spare => exact hguarded (leaveStep_erased_iff s.worker order spare)
      | destroy order spare => exact hguarded (destroyStep_erased_iff s.worker order spare)
      | loop act =>
          rcases step_loop server s act with ⟨spare, clock, hpoint, rfl⟩ | ⟨hstep, hkeeps⟩
          · obtain ⟨w, point⟩ := s
            cases hpoint
            have hstep : (Life.running ⟨w, .top⟩).step server (.loop (.drop spare clock)) =
                dropStep server w spare clock := rfl
            have hkeeps : KeepsElement server (.running ⟨w, .top⟩) (.loop (.drop spare clock)) ↔
                NoneTimedOut server clock w.work := ⟨fun h => h rfl, fun h _ => h⟩
            rw [hstep, hkeeps]
            constructor
            · intro herased hyoung
              rw [dropStep_of_noneTimedOut hyoung, Option.map_eq_some_iff] at herased
              obtain ⟨next, -, hnext⟩ := herased
              exact ofNext_ne_erased next hnext
            · intro hlate
              exact dropStep_of_timedOut hlate spare
          · rw [hstep, Option.map_eq_some_iff]
            refine iff_of_false ?_ (not_not_intro hkeeps)
            rintro ⟨next, -, hnext⟩
            exact ofNext_ne_erased next hnext
  | left w =>
      -- behind `run` the destructor goes through the connections once more
      cases act with
      | destroy order spare => exact destroyStep_erased_iff w order spare
      | loop act => exact iff_of_false nofun (not_not_intro trivial)
      | leave order spare => exact iff_of_false nofun (not_not_intro trivial)
  | destroyed =>
      cases act with
      | loop act => exact iff_of_false nofun (not_not_intro trivial)
      | leave order spare => exact iff_of_false nofun (not_not_intro trivial)
      | destroy order spare => exact iff_of_false nofun (not_not_intro trivial)

/-- A step that keeps the elements is one of `Running`, when it is one of the `while` loop. -/
theorem step_running {server : BaseHTTPServer} {s : Running} {act : Act} {s' : Life}
    (h : (Life.running s).step server (.loop act) = some (.goesOn s')) :
    ∃ r, s' = .running r ∧ s.Step server act r := by
  have hgoes : ((s.step server act).map LifeNext.ofNext) = some (.goesOn s') := by
    rcases step_loop server s act with ⟨spare, clock, hpoint, rfl⟩ | ⟨hstep, -⟩
    · obtain ⟨w, point⟩ := s
      cases hpoint
      have hstep : (Life.running ⟨w, .top⟩).step server (.loop (.drop spare clock)) =
          dropStep server w spare clock := rfl
      rw [hstep] at h
      by_cases hyoung : NoneTimedOut server clock w.work
      · rwa [dropStep_of_noneTimedOut hyoung] at h
      · rw [dropStep_of_timedOut hyoung] at h
        cases h
    · rwa [hstep] at h
  obtain ⟨next, hnext, hlift⟩ := Option.map_eq_some_iff.mp hgoes
  cases next with
  | goesOn r =>
      cases hlift
      exact ⟨r, rfl, hnext⟩
  | terminated e => cases hlift
  | undefined why => cases hlift

/-- **Where a loop advances from an erased element.**  In a run from any state, and so from a
worker's construction, no loop ever does exactly when no step drops a client from the
container it goes through. -/
theorem run_erased_iff (server : BaseHTTPServer) (s : Life) (acts : List LifeAct) :
    s.run server acts ≠ some .elementErased ↔ EveryStep server (KeepsElement server) s acts := by
  induction acts generalizing s with
  | nil => exact iff_of_true nofun trivial
  | cons act acts ih =>
      have hstep := step_erased_iff server s act
      have hkeeps : s.step server act ≠ some .elementErased → KeepsElement server s act := by
        intro hne
        by_contra hnot
        exact hne (hstep.mpr hnot)
      unfold run EveryStep
      cases hnext : s.step server act with
      | none =>
          rw [hnext] at hkeeps
          exact iff_of_true nofun ⟨hkeeps nofun, nofun⟩
      | some next =>
          rw [hnext] at hstep hkeeps
          cases next with
          | elementErased => exact iff_of_false (fun h => h rfl) fun h => hstep.mp rfl h.1
          | terminated e => exact iff_of_true nofun ⟨hkeeps nofun, nofun⟩
          | undefined why => exact iff_of_true nofun ⟨hkeeps nofun, nofun⟩
          | goesOn s' =>
              dsimp only
              rw [ih s']
              constructor
              · intro hrest
                refine ⟨hkeeps nofun, fun s'' hs'' => ?_⟩
                cases hs''
                exact hrest
              · rintro ⟨-, hrest⟩
                exact hrest s' rfl

/-! ## A run with a client -/

/-- What the kernel grants. -/
def Promised (server : BaseHTTPServer) : Life → LifeAct → Prop
  | .running s, .loop act => s.Promised server act
  | _, _ => True

theorem EveryStep.cons {server : BaseHTTPServer} {P : Life → LifeAct → Prop} {s s' : Life}
    {act : LifeAct} {acts : List LifeAct} (hP : P s act)
    (hstep : s.step server act = some (.goesOn s'))
    (hrest : EveryStep server P s' acts) : EveryStep server P s (act :: acts) := by
  refine ⟨hP, fun s'' hs'' => ?_⟩
  rw [hstep] at hs''
  cases hs''
  exact hrest

/-- A client is accepted, and 61 seconds later the sweep finds it timed out. -/
def clientTimedOut : List LifeAct :=
  [.loop (.drop {} fun _ => 0), .loop (.wait (.ready [⟨3, 1⟩])), .loop (.handle (accepting 5 1).2),
    .loop .finish, .loop (.drop {} fun _ => 1 + 61 * 10 ^ 9)]

theorem clientTimedOut_erased :
    ¬ ∀ acts, EveryStep serverOn3 (Promised serverOn3) (.running {}) acts →
      (Life.running {}).run serverOn3 acts ≠ some .elementErased := by
  intro h
  apply h clientTimedOut
  · have hfinish : EveryStep serverOn3 (Promised serverOn3) (.running ⟨oneClient, .handling []⟩)
        [.loop .finish, .loop (.drop {} fun _ => 1 + 61 * 10 ^ 9)] :=
      .cons trivial rfl ⟨trivial, fun _ _ => trivial⟩
    have haccept : EveryStep serverOn3 (Promised serverOn3) (.running ⟨{}, .handling [⟨3, 1⟩]⟩)
        [.loop (.handle (accepting 5 1).2), .loop .finish,
          .loop (.drop {} fun _ => 1 + 61 * 10 ^ 9)] :=
      .cons (accepting_promised_first 5 1) rfl hfinish
    exact .cons trivial rfl (.cons (listening_promised ⟨{}, .waiting⟩) rfl haccept)
  · decide +kernel

end Life
end HTTP
end AdvCppHW
