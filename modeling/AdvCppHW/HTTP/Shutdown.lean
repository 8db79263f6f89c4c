import AdvCppHW.HTTP.WorkerRun

/-!
# Shutting a server down

The threads of a server and one call of `BaseHTTPServer::shutdown`, from the moment
`BaseHTTPServer::run` was entered.  `run` starts the workers one by one and joins them; each
goes through the loop of `ThreadWork::run`, and tests `m_shutdown` in front of each
iteration.  An exception that leaves a worker ends the process; the steps below are those
behind which the process goes on.

* `Pool.step` — the steps of all threads.
* `flag_down` — in no state is the flag up that a worker tests; `worker_reaches` — each worker goes
  through a run of `Running`.
* `StopsWorkers` — what is said about `shutdown`; `shutdown_stops_iff` — it holds of a
  server without workers only.
-/

namespace AdvCppHW
namespace HTTP

/-! ## The threads -/

/-- Where the thread of a worker is. -/
inductive WorkerPoint where
  /-- In front of `initEpoll` and `addToEpoll`. -/
  | initialising
  /-- In front of the test of `m_shutdown`. -/
  | testing (w : Worker)
  /-- In an iteration of the loop. -/
  | iterating (s : Running)
  | returned
deriving DecidableEq

/-- Where `BaseHTTPServer::run` is. -/
inductive RunPoint where
  /-- In front of the first loop's test. -/
  | starting
  /-- The flag is stored; the next thread is still to be created. -/
  | stored
  /-- In front of the join of this thread. -/
  | joining (i : Nat)
  | returned
deriving DecidableEq

/-- Where `BaseHTTPServer::shutdown` is. -/
inductive ShutdownPoint where
  | idle
  /-- The flag is stored. -/
  | stored
  | returned
deriving DecidableEq

/-- A server while it runs. -/
structure Pool where
  /-- `m_threads.size()`. -/
  size : Nat
  m_shutdown : Bool
  /-- The workers that were started. -/
  workers : List WorkerPoint := []
  run : RunPoint := .starting
  shutdown : ShutdownPoint := .idle
deriving DecidableEq

/-- A step of a worker. -/
inductive WorkerAct where
  | init
  | test
  /-- A step within an iteration. -/
  | loop (act : Act)

inductive PoolAct where
  | run
  | shutdown
  | worker (i : Nat) (act : WorkerAct)

/-- A step of the thread of a worker; `none` when it is not the next one. -/
def workerStep (server : BaseHTTPServer) (m_shutdown : Bool) :
    WorkerPoint → WorkerAct → Option WorkerPoint
  | .initialising, .init => some (.testing {})
  | .testing w, .test =>
      if !m_shutdown then some (.iterating ⟨w, .top⟩)
      -- the loop behind erases from the map it goes through, which is undefined if that is not
      -- empty
      else if w.work.m_connections.entries = [] then some .returned
      else none
  | .iterating s, .loop act =>
      match s.step server act with
      | some (.goesOn s') => some (if s'.point = .top then .testing s'.worker else .iterating s')
      | _ => none
  | _, _ => none

namespace Pool

/-- The steps of the thread in `BaseHTTPServer::run`. -/
def runStep (s : Pool) : Option Pool :=
  match s.run with
  | .starting =>
      if s.workers.length < s.size then some { s with m_shutdown := false, run := .stored }
      else some { s with run := .joining 0 }
  | .stored => some { s with workers := s.workers ++ [.initialising], run := .starting }
  | .joining i =>
      if i < s.size then
        -- a join waits for the end of its thread
        if s.workers[i]? = some .returned then some { s with run := .joining (i + 1) } else none
      else some { s with run := .returned }
  | .returned => none

/-- The steps of the thread in `BaseHTTPServer::shutdown`. -/
def shutdownStep (s : Pool) : Option Pool :=
  match s.shutdown with
  | .idle => some { s with m_shutdown := false, shutdown := .stored }
  | .stored => some { s with shutdown := .returned }
  | .returned => none

def step (server : BaseHTTPServer) (s : Pool) : PoolAct → Option Pool
  | .run => s.runStep
  | .shutdown => s.shutdownStep
  | .worker i act =>
      match s.workers[i]? with
      | none => none
      | some p => (workerStep server s.m_shutdown p act).map fun p' =>
          { s with workers := s.workers.set i p' }

def Step (server : BaseHTTPServer) (s : Pool) (act : PoolAct) (s' : Pool) : Prop :=
  s.step server act = some s'

end Pool

/-- The server when `run` was entered; `garbage` is what the memory of `m_shutdown` held. -/
def entered (size : Nat) (garbage : Bool) : Pool := { size := size, m_shutdown := garbage }

abbrev ReachesPool (server : BaseHTTPServer) : Pool → Pool → Prop :=
  Support.Reaches (Pool.Step server) fun _ _ => True

/-- What is said: once `shutdown` has returned, no worker begins another iteration. -/
def StopsWorkers (server : BaseHTTPServer) (size : Nat) (garbage : Bool) : Prop :=
  ∀ s s' i, ReachesPool server (entered size garbage) s → s.shutdown = .returned →
    s.Step server (.worker i .test) s' → ∀ r, s'.workers[i]? ≠ some (.iterating r)

/-! ## What holds in every run -/

/-- The flag is down wherever a worker can test it, and `run` does not start too many workers. -/
structure Pool.FlagDown (size : Nat) (s : Pool) : Prop where
  size_eq : s.size = size
  workers_le : s.workers.length ≤ size
  stored : s.run = .stored → s.workers.length < size ∧ s.m_shutdown = false
  started : s.workers ≠ [] → s.m_shutdown = false

theorem runStep_flagDown {size : Nat} {s s' : Pool} (h : s.FlagDown size)
    (hstep : s.runStep = some s') : s'.FlagDown size := by
  obtain ⟨hsize, hle, hstored, hstarted⟩ := h
  unfold Pool.runStep at hstep
  split at hstep
  · split at hstep
    · next hlt =>
        cases hstep
        rw [hsize] at hlt
        exact ⟨hsize, hle, fun _ => ⟨hlt, rfl⟩, fun _ => rfl⟩
    · cases hstep
      exact ⟨hsize, hle, nofun, hstarted⟩
  · next hpoint =>
      obtain ⟨hlt, hdown⟩ := hstored hpoint
      cases hstep
      refine ⟨hsize, ?_, nofun, fun _ => hdown⟩
      rw [List.length_append]
      exact hlt
  · split at hstep
    · split at hstep
      · cases hstep
        exact ⟨hsize, hle, nofun, hstarted⟩
      · cases hstep
    · cases hstep
      exact ⟨hsize, hle, nofun, hstarted⟩
  · cases hstep

/-- `shutdown` stores what `run` has stored before. -/
theorem shutdownStep_flagDown {size : Nat} {s s' : Pool} (h : s.FlagDown size)
    (hstep : s.shutdownStep = some s') : s'.FlagDown size := by
  obtain ⟨hsize, hle, hstored, hstarted⟩ := h
  unfold Pool.shutdownStep at hstep
  split at hstep
  · cases hstep
    exact ⟨hsize, hle, fun hpoint => ⟨(hstored hpoint).1, rfl⟩, fun _ => rfl⟩
  · cases hstep
    exact ⟨hsize, hle, hstored, hstarted⟩
  · cases hstep

/-- A step of a worker changes that worker only. -/
theorem workerStep_cases {server : BaseHTTPServer} {s s' : Pool} {i : Nat} {act : WorkerAct}
    (hstep : s.Step server (.worker i act) s') :
    ∃ p p', s.workers[i]? = some p ∧ workerStep server s.m_shutdown p act = some p' ∧
      s' = { s with workers := s.workers.set i p' } := by
  simp only [Pool.Step, Pool.step] at hstep
  cases hworker : s.workers[i]? with
  | none =>
      rw [hworker] at hstep
      cases hstep
  | some p =>
      rw [hworker] at hstep
      obtain ⟨p', hp', rfl⟩ := Option.map_eq_some_iff.mp hstep
      exact ⟨p, p', rfl, hp', rfl⟩

theorem step_flagDown {server : BaseHTTPServer} {size : Nat} {s s' : Pool} {act : PoolAct}
    (h : s.FlagDown size) (hstep : s.Step server act s') : s'.FlagDown size := by
  cases act with
  | run => exact runStep_flagDown h hstep
  | shutdown => exact shutdownStep_flagDown h hstep
  | worker i act =>
      obtain ⟨p, p', hworker, -, rfl⟩ := workerStep_cases hstep
      obtain ⟨hsize, hle, hstored, hstarted⟩ := h
      have hne : s.workers ≠ [] := by
        intro hnil
        rw [hnil] at hworker
        cases hworker
      refine ⟨hsize, ?_, ?_, fun _ => hstarted hne⟩
      · rw [List.length_set]
        exact hle
      · rw [List.length_set]
        exact hstored

/-- In every state of every run, the flag that a worker tests is down. -/
theorem flag_down {server : BaseHTTPServer} {size : Nat} {garbage : Bool} {s : Pool}
    (h : ReachesPool server (entered size garbage) s) : s.FlagDown size :=
  h.invariant (fun _ _ _ h _ hs => step_flagDown h hs)
    ⟨rfl, Nat.zero_le size, nofun, by simp [entered]⟩

/-- A run of the loop leads to where the worker is. -/
def WorkerPoint.Reached (server : BaseHTTPServer) (promised : Running → Act → Prop) :
    WorkerPoint → Prop
  | .iterating s => Support.Reaches (Running.Step server) promised {} s
  | .testing w => Support.Reaches (Running.Step server) promised {} ⟨w, .top⟩
  | .initialising | .returned => True

/-- What holds of the steps within iterations, of every worker. -/
def Pool.Each (promised : Running → Act → Prop) (s : Pool) : PoolAct → Prop
  | .worker i (.loop act) => ∀ r, s.workers[i]? = some (.iterating r) → promised r act
  | _ => True

theorem workerStep_reached {server : BaseHTTPServer} {promised : Running → Act → Prop}
    {m_shutdown : Bool} {p p' : WorkerPoint} {act : WorkerAct} (h : p.Reached server promised)
    (hpromised : ∀ r a, p = .iterating r → act = .loop a → promised r a)
    (hstep : workerStep server m_shutdown p act = some p') : p'.Reached server promised := by
  unfold workerStep at hstep
  split at hstep
  · cases hstep
    exact .refl
  · split at hstep
    · cases hstep
      exact h
    · split at hstep
      · cases hstep
        trivial
      · cases hstep
  · next r a =>
      split at hstep
      · next s' hr =>
          have hreaches : Support.Reaches (Running.Step server) promised {} s' :=
            Relation.ReflTransGen.tail h ⟨a, hpromised r a rfl rfl, hr⟩
          cases hstep
          split
          · next htop =>
              obtain ⟨w, point⟩ := s'
              cases htop
              exact hreaches
          · exact hreaches
      · cases hstep
  · cases hstep

/-- `run` leaves the workers alone, or starts one. -/
theorem runStep_workers {s s' : Pool} (hstep : s.runStep = some s') :
    s'.workers = s.workers ∨ s'.workers = s.workers ++ [.initialising] := by
  unfold Pool.runStep at hstep
  split at hstep
  · split at hstep
    · cases hstep
      exact Or.inl rfl
    · cases hstep
      exact Or.inl rfl
  · cases hstep
    exact Or.inr rfl
  · split at hstep
    · split at hstep
      · cases hstep
        exact Or.inl rfl
      · cases hstep
    · cases hstep
      exact Or.inl rfl
  · cases hstep

theorem shutdownStep_workers {s s' : Pool} (hstep : s.shutdownStep = some s') :
    s'.workers = s.workers := by
  unfold Pool.shutdownStep at hstep
  split at hstep
  · cases hstep
    rfl
  · cases hstep
    rfl
  · cases hstep

/-- Every worker of a server goes through a run of the loop, whatever the other threads do. -/
theorem worker_reaches {server : BaseHTTPServer} {promised : Running → Act → Prop} {size : Nat}
    {garbage : Bool} {s : Pool}
    (h : Support.Reaches (Pool.Step server) (Pool.Each promised) (entered size garbage) s) :
    ∀ p ∈ s.workers, p.Reached server promised := by
  induction h with
  | refl => exact nofun
  | @tail t s' _ hlast ih =>
      obtain ⟨act, hpromised, hstep⟩ := hlast
      cases act with
      | worker i act =>
          obtain ⟨p, p', hworker, hp', rfl⟩ := workerStep_cases hstep
          intro q hq
          rcases List.mem_or_eq_of_mem_set hq with hold | rfl
          · exact ih q hold
          · refine workerStep_reached (ih p (List.mem_of_getElem? hworker)) ?_ hp'
            rintro r a rfl rfl
            exact hpromised r hworker
      | shutdown =>
          rw [shutdownStep_workers hstep]
          exact ih
      | run =>
          rcases runStep_workers hstep with hsame | hstarted
          · rw [hsame]
            exact ih
          · rw [hstarted]
            intro p hp
            rcases List.mem_append.mp hp with hold | hnew
            · exact ih p hold
            · rw [List.mem_singleton.mp hnew]
              trivial

/-- The first worker is started, and `shutdown` returns before the worker tests the flag. -/
theorem reaches_shutdown (server : BaseHTTPServer) (n : Nat) (garbage : Bool) :
    ReachesPool server (entered (n + 1) garbage)
      ⟨n + 1, false, [.testing {}], .starting, .returned⟩ := by
  have hstored : Pool.Step server (entered (n + 1) garbage) .run
      ⟨n + 1, false, [], .stored, .idle⟩ := by
    simp [Pool.Step, Pool.step, Pool.runStep, entered]
  have hstarted : ReachesPool server (entered (n + 1) garbage)
      ⟨n + 1, false, [.initialising], .starting, .idle⟩ :=
    .head ⟨.run, trivial, hstored⟩ (.single ⟨.run, trivial, rfl⟩)
  exact hstarted.trans (.head ⟨.worker 0 .init, trivial, rfl⟩
    (.head ⟨.shutdown, trivial, rfl⟩ (.single ⟨.shutdown, trivial, rfl⟩)))

/-- **Shutting down stops no worker.**  Once `shutdown` has returned no worker begins another
iteration exactly if the server has no workers.  In every state of every run, each worker that tests
the flag begins another iteration. -/
theorem shutdown_stops_iff (server : BaseHTTPServer) (size : Nat) (garbage : Bool) :
    (StopsWorkers server size garbage ↔ size = 0) ∧
      ∀ s i w, ReachesPool server (entered size garbage) s → s.workers[i]? = some (.testing w) →
        s.Step server (.worker i .test)
          { s with workers := s.workers.set i (.iterating ⟨w, .top⟩) } := by
  have hbegins : ∀ s i w, ReachesPool server (entered size garbage) s →
      s.workers[i]? = some (.testing w) → s.Step server (.worker i .test)
        { s with workers := s.workers.set i (.iterating ⟨w, .top⟩) } := by
    intro s i w hrun hworker
    have hdown : s.m_shutdown = false := (flag_down hrun).started fun hnil => by
      rw [hnil] at hworker
      cases hworker
    simp only [Pool.Step, Pool.step, hworker, workerStep, hdown, Bool.not_false, if_true,
      Option.map_some]
  refine ⟨⟨fun hstops => ?_, ?_⟩, hbegins⟩
  · cases size with
    | zero => rfl
    | succ n =>
        have hrun := reaches_shutdown server n garbage
        exact absurd rfl (hstops _ _ 0 hrun rfl (hbegins _ 0 {} hrun rfl) ⟨{}, .top⟩)
  · rintro rfl s s' i hrun - hstep r
    obtain ⟨p, p', hworker, -, -⟩ := workerStep_cases hstep
    have hnil : s.workers = [] :=
      List.length_eq_zero_iff.mp (Nat.le_zero.mp (flag_down hrun).workers_le)
    rw [hnil] at hworker
    cases hworker

/-- `shutdown` returns while the only worker is in an iteration; the worker finishes that and begins
another one. -/
theorem shutdown_stops_nobody :
    ∃ s s', ReachesPool serverOn3 (entered 1 false) s ∧ s.shutdown = .returned ∧
      s.workers = [.testing {}] ∧ s.Step serverOn3 (.worker 0 .test) s' ∧
        s'.workers = [.iterating ⟨{}, .top⟩] := by
  have hiterating : ReachesPool serverOn3 (entered 1 false)
      ⟨1, false, [.iterating ⟨{}, .waiting⟩], .starting, .idle⟩ :=
    .head ⟨.run, trivial, rfl⟩ (.head ⟨.run, trivial, rfl⟩ (.head ⟨.worker 0 .init, trivial, rfl⟩
      (.head ⟨.worker 0 .test, trivial, rfl⟩
        (.single ⟨.worker 0 (.loop (.drop {} fun _ => 0)), trivial, rfl⟩))))
  have hreturned : ReachesPool serverOn3 (entered 1 false)
      ⟨1, false, [.iterating ⟨{}, .waiting⟩], .starting, .returned⟩ :=
    hiterating.trans (.head ⟨.shutdown, trivial, rfl⟩ (.single ⟨.shutdown, trivial, rfl⟩))
  have htested : ReachesPool serverOn3 (entered 1 false)
      ⟨1, false, [.testing {}], .starting, .returned⟩ :=
    hreturned.tail ⟨.worker 0 (.loop (.wait .nothing)), trivial, rfl⟩
  exact ⟨_, _, htested, rfl, rfl, rfl, rfl⟩

end HTTP
end AdvCppHW
