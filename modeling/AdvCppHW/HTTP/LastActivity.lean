import AdvCppHW.HTTP.TableAgreement
import AdvCppHW.HTTP.TimeoutSweep
import AdvCppHW.HTTP.UnsetTimeout
import AdvCppHW.Support.Family

/-!
# Whom a worker drops in a run

A client is active when it is accepted and when an event of it has been handled; an event whose
handling ends by an exception does not count, since `resetConnectionTime` is left out.  In a run
that keeps the tables in agreement `m_idleTime` holds the time of each client's last activity, so
that a sweep drops the clients whose last activity is too long ago, and no others.  `KeepsAgreement`
says which steps do: an accepted descriptor is registered, the clock is read at a time that no other
client has, and an event resumes its client's own coroutine.  A sweep goes on behind the elements
that it erases, as in `ThreadWork.sweep`.

* `Running.active` — the activity in a step; `lastActive` — the last one of a client.
* `FewerTimes` — what all members do to the idle times but accepting and resetting.
* `step_timely` — one step; `sweeps_follow_activity` — the sweeps of whole runs.
-/

namespace AdvCppHW
namespace HTTP

open Support ThreadWork Worker

/-! ## Activity -/

/-- The client that is active in a step, with the reading of the clock. -/
def Running.active (server : BaseHTTPServer) (s : Running) (act : Act) : List (Int × Int) :=
  match act with
  | .handle env =>
      match s.point with
      | .handling (ready :: _) =>
          match s.worker.dispatch server ready env with
          | .ok _ =>
              if ready.fd = server.m_socket.m_fd then
                if env.accepted.fd < 0 then [] else [(env.accepted.fd, env.now)]
              else [(ready.fd, env.now)]
          | _ => []
      | _ => []
  | _ => []

/-- The time of the last activity of a client. -/
def lastActive (as : List (Int × Int)) (fd : Int) : Option Int :=
  (as.reverse.find? fun a => a.1 = fd).map Prod.snd

theorem lastActive_append_self (as : List (Int × Int)) (fd now : Int) :
    lastActive (as ++ [(fd, now)]) fd = some now := by
  simp [lastActive]

theorem lastActive_append_ne (as : List (Int × Int)) {fd fd' : Int} (h : fd' ≠ fd) (now : Int) :
    lastActive (as ++ [(fd, now)]) fd' = lastActive as fd' := by
  simp [lastActive, h.symm]

/-- Each idle time is that of the client's last activity. -/
def Timely (as : List (Int × Int)) (t : ThreadWork) : Prop :=
  ∀ fd time, time ∈ t.times fd → lastActive as fd = some time

/-! ## Members that give no idle time -/

/-- Nobody has an idle time that it did not have before. -/
def FewerTimes (t t' : ThreadWork) : Prop := ∀ fd time, time ∈ t'.times fd → time ∈ t.times fd

theorem FewerTimes.trans {t t' t'' : ThreadWork} (h : FewerTimes t t') (h' : FewerTimes t' t'') :
    FewerTimes t t'' :=
  fun fd time htime => h fd time (h' fd time htime)

theorem fewerTimes_of_idle {t t' : ThreadWork} (h : t'.m_idleTime = t.m_idleTime) :
    FewerTimes t t' := by
  intro fd time htime
  rwa [mem_times, h] at htime

theorem Timely.fewer {as : List (Int × Int)} {t t' : ThreadWork} (h : Timely as t)
    (hfewer : FewerTimes t t') : Timely as t' :=
  fun fd time htime => h fd time (hfewer fd time htime)

theorem eraseIdle_fewerTimes (t : ThreadWork) (fd : Int) :
    (t.eraseIdle fd).Leaves True (FewerTimes t) := by
  rcases eraseIdle_cases t fd with ⟨hundef, -⟩ | ⟨time, -, hok⟩
  · rw [hundef]
    trivial
  · rw [hok]
    exact fun j time' htime' => (mem_times_erase.mp htime').2

theorem disconnectClient_fewerTimes (t : ThreadWork) (fd : Int) (spare : NewSocket) :
    (t.disconnectClient fd spare).Leaves True (FewerTimes t) := by
  obtain ⟨hgained, hlookup⟩ := element_gained (t.removeFromEpoll fd) fd spare
  have hidle : ∀ (u : ThreadWork), (u.eraseConnection fd).m_idleTime = u.m_idleTime := by
    intro u
    unfold eraseConnection
    split
    · rfl
    · rfl
  unfold disconnectClient
  dsimp only
  refine (eraseIdle_fewerTimes _ fd).mono fun t' hfewer => FewerTimes.trans ?_ hfewer
  refine fewerTimes_of_idle ?_
  exact (hidle _).trans hgained.idle

theorem afterResume_fewerTimes (w : Worker) (fd : Int) (spare : NewSocket) :
    (w.afterResume fd spare).Leaves True fun w' => FewerTimes w.work w'.work := by
  have helement := (element_gained w.work fd spare).1
  unfold Worker.afterResume
  dsimp only
  split
  · exact (disconnectClient_fewerTimes _ fd spare).map fun t hfewer =>
      (fewerTimes_of_idle helement.idle).trans hfewer
  · split
    · exact fewerTimes_of_idle helement.idle
    · exact fewerTimes_of_idle helement.idle

theorem handleConnection_fewerTimes (w : Worker) (fd : Int) (events : UInt32) (env : Env) :
    (w.handleConnection fd events env).Leaves True fun w' => FewerTimes w.work w'.work := by
  have hready : ∃ r_id t, Gained w.work t ∧ w.handleConnection fd events env =
      Worker.resumed ⟨t, w.ordinator⟩ fd env.spare
        (w.ordinator.resume (runCallback env.script) r_id t) := by
    refine ⟨_, _, ?_, rfl⟩
    exact ((element_gained w.work fd env.spare).1.trans (update_gained _ _ _ _)).trans
      (coroutine_gained _ fd)
  obtain ⟨r_id, t, hgained, heq⟩ := hready
  rw [heq, Coroutine.Ordinator.resume]
  have hidle := fewerTimes_of_idle hgained.idle
  have hrefused := (afterResume_fewerTimes ⟨t, w.ordinator⟩ fd env.spare).mono
    fun w' hfewer => hidle.trans hfewer
  split
  · exact hrefused
  · split
    · exact hrefused
    · split
      · trivial
      · split
        · trivial
        · next ended t' hrun =>
            have hidle' := hidle.trans (fewerTimes_of_idle (runCallback_gained hrun).idle)
            dsimp only
            split
            · exact hidle'
            · exact (afterResume_fewerTimes ⟨t', _⟩ fd env.spare).mono fun w' hfewer =>
                hidle'.trans hfewer

/-! ## Members that give one -/

theorem Timely.given {as : List (Int × Int)} {t t' : ThreadWork} (h : Timely as t) {fd now : Int}
    (hself : ∀ time, time ∈ t'.times fd → time = now)
    (hothers : ∀ j, j ≠ fd → ∀ time, time ∈ t'.times j → time ∈ t.times j) :
    Timely (as ++ [(fd, now)]) t' := by
  intro j time htime
  by_cases hj : j = fd
  · subst hj
    rw [lastActive_append_self, hself time htime]
  · rw [lastActive_append_ne as hj]
    exact h j time (hothers j hj time htime)

/-- Somebody who has no idle time is active. -/
theorem Timely.absent {as : List (Int × Int)} {t : ThreadWork} (h : Timely as t) {fd : Int}
    (hnone : ∀ time, time ∉ t.times fd) (now : Int) : Timely (as ++ [(fd, now)]) t :=
  h.given (fun time htime => absurd htime (hnone time)) fun _ _ _ htime => htime

theorem accept_timely {as : List (Int × Int)} {w w' : Worker} (h : Timely as w.work)
    (hagree : WorkerAgrees w) {env : Env} (hfd : 0 ≤ env.accepted.fd)
    (hunused : ∀ fd el, w.work.m_connections.lookup fd = some el →
      el.conn.m_socket.m_fd ≠ env.accepted.fd)
    (hadded : env.added = true) (hnew : StampIsNew w.work env.accepted.fd env.now)
    (hok : w.accept env = .ok w') : Timely (as ++ [(env.accepted.fd, env.now)]) w'.work := by
  have habsent := (accept_agree hagree.agree hagree.consistent hfd hunused hadded hnew).1
  obtain ⟨t, hok', -, -, hidle⟩ := accept_fresh hfd habsent hadded
  rw [hok] at hok'
  cases hok'
  have hnone : ∀ time, time ∉ w.work.times env.accepted.fd := by
    intro time htime
    obtain ⟨⟨el, id, hview, -⟩, -⟩ := (hagree.agree _).present (Or.inr (Or.inr ⟨time, htime⟩))
    rw [habsent] at hview
    cases hview
  have htimes : ∀ {j time}, time ∈ t.times j →
      time = env.now ∧ j = env.accepted.fd ∨ time ∈ w.work.times j := by
    intro j time htime
    rw [mem_times, hidle] at htime
    exact mem_times_of_insertNew htime
  refine h.given (fun time htime => ?_) fun j hj time htime => ?_
  · exact (htimes htime).elim And.left fun hold => absurd hold (hnone time)
  · exact (htimes htime).resolve_left fun hnow => hj hnow.2

theorem resetConnectionTime_timely {as : List (Int × Int)} {t t' : ThreadWork} (h : Timely as t)
    (hagree : Agree t) {fd now : Int} (hok : t.resetConnectionTime fd now = .ok t') :
    Timely (as ++ [(fd, now)]) t' := by
  rw [resetConnectionTime] at hok
  rcases eraseIdle_cases t fd with ⟨hundef, -⟩ | ⟨since, hsince, herased⟩
  · rw [hundef] at hok
    cases hok
  · rw [herased, Outcome.andThen_ok] at hok
    cases hok
    obtain ⟨-, only, -, honly⟩ := (hagree fd).present (Or.inr (Or.inr ⟨since, hsince⟩))
    refine h.given (fun time htime => ?_) fun j hj time htime => ?_
    · -- its former idle time was the only one
      rcases mem_times_of_insertNew htime with ⟨hnow, -⟩ | hold
      · exact hnow
      · obtain ⟨hne, hmem⟩ := mem_times_erase.mp hold
        exact absurd ((honly time hmem).trans (honly since hsince).symm) hne
    · rcases mem_times_of_insertNew htime with ⟨-, heq⟩ | hold
      · exact absurd heq hj
      · exact (mem_times_erase.mp hold).2

/-! ## Steps -/

/-- What a step keeps: the tables agree, and the idle times are those of the last activities. -/
structure ActiveWorker (server : BaseHTTPServer) (as : List (Int × Int)) (s : Running) : Prop where
  inRun : InRun server WorkerAgrees s
  timely : Timely as s.worker.work

theorem idlePerClient_of_agree {t : ThreadWork} (h : Agree t) : IdlePerClient t := by
  have htables := h.tables
  intro fd
  exact ⟨(htables.idle fd).symm, htables.once fd⟩

/-- What a sweep drops, for tables that agree. -/
theorem sweep_of_agree {t : ThreadWork} (h : Agree t) (server : BaseHTTPServer) (spare : NewSocket)
    (clock : Nat → Int) :
    ∃ t' clients, t.dropTimeoutedConnections server spare clock = .ok t' ∧ Dropped clients t t' ∧
      IdlePerClient t' ∧
      (∀ n i, clients[n]? = some i → timeDiff (clock n) i.1 > server.m_timeout) ∧
      ∀ i ∈ t'.m_idleTime.entries, timeDiff (clock clients.length) i.1 ≤ server.m_timeout :=
  sweep_exact spare (idlePerClient_of_agree h) rfl clock

/-- A sweep returns, and gives nobody an idle time. -/
theorem sweep_fewerTimes {t : ThreadWork} (h : Agree t) (server : BaseHTTPServer)
    (spare : NewSocket) (clock : Nat → Int) :
    ∃ t', t.dropTimeoutedConnections server spare clock = .ok t' ∧ FewerTimes t t' := by
  obtain ⟨t', clients, hok, hdropped, -⟩ := sweep_of_agree h server spare clock
  refine ⟨t', hok, fun fd time htime => ?_⟩
  have hmem : (time, fd) ∈ clients ++ t'.m_idleTime.entries :=
    List.mem_append_right _ (OrdMap.lookup_eq_some_iff.mp htime)
  rw [← hdropped.idle] at hmem
  exact OrdMap.lookup_eq_some_iff.mpr hmem

theorem handled_timely {server : BaseHTTPServer} {as : List (Int × Int)} {s : Running}
    (h : ActiveWorker server as s) {env : Env} {ready : Ready} {rest : List Ready}
    (hpoint : s.point = .handling (ready :: rest)) (hpromised : s.Promised server (.handle env))
    (hkeeps : KeepsAgreement server s (.handle env)) {w : Worker}
    (hok : s.worker.dispatch server ready env = .ok w) :
    Timely (as ++ s.active server (.handle env)) w.work := by
  have hcond := hkeeps ready rest hpoint
  have hready := (h.inRun.pending _ hpoint).2 ready List.mem_cons_self
  simp only [Running.active, hpoint, hok]
  rw [Worker.dispatch] at hok
  by_cases hlisten : ready.fd = server.m_socket.m_fd
  · rw [if_pos hlisten] at hok hcond ⊢
    by_cases hrefused : env.accepted.fd < 0
    · rw [if_pos hrefused, List.append_nil]
      rw [accept_refused hrefused] at hok
      cases hok
      exact h.timely
    · rw [if_neg hrefused]
      have hfd : 0 ≤ env.accepted.fd := not_lt.mp hrefused
      obtain ⟨hadded, hnew⟩ := hcond hfd
      exact accept_timely h.timely h.inRun.inv hfd (hpromised hfd) hadded hnew hok
  · rw [if_neg hlisten] at hok hcond ⊢
    have hagree := h.inRun.inv.agree
    have hpresent := ((hagree ready.fd).present (Or.inr (Or.inl (hready.resolve_left hlisten)))).1
    have hleft :=
      handleConnection_agree hagree h.inRun.inv.consistent hpresent hcond.1 ready.events env
    have hfewer := handleConnection_fewerTimes s.worker ready.fd ready.events env
    cases hhandled : s.worker.handleConnection ready.fd ready.events env with
    | undefined why =>
        rw [hhandled] at hok
        cases hok
    | threw e w₁ =>
        rw [hhandled] at hok
        cases hok
    | ok w₁ =>
        rw [hhandled] at hok hleft hfewer
        rw [Outcome.andThen_ok] at hok
        have htimely := h.timely.fewer hfewer
        split at hok
        · next hmem =>
            cases hreset : w₁.work.resetConnectionTime ready.fd env.now with
            | undefined why =>
                rw [hreset] at hok
                cases hok
            | threw e t =>
                rw [hreset] at hok
                cases hok
            | ok t =>
                rw [hreset] at hok
                cases hok
                exact resetConnectionTime_timely htimely hleft.agree hreset
        · next hgone =>
            cases hok
            refine htimely.absent (fun time htime => hgone ?_) env.now
            exact (hleft.agree.tables.idle ready.fd).mp ⟨time, htime⟩

/-- When the handling of an event ends by an exception, nobody has got an idle time. -/
theorem dispatch_threw_fewerTimes {server : BaseHTTPServer} {as : List (Int × Int)} {s : Running}
    (h : ActiveWorker server as s) {env : Env} {ready : Ready} {rest : List Ready}
    (hpoint : s.point = .handling (ready :: rest)) (hpromised : s.Promised server (.handle env))
    (hkeeps : KeepsAgreement server s (.handle env)) {w : Worker} {e : Exception}
    (hthrew : s.worker.dispatch server ready env = .threw e w) :
    FewerTimes s.worker.work w.work := by
  have hcond := hkeeps ready rest hpoint
  rw [Worker.dispatch] at hthrew
  by_cases hlisten : ready.fd = server.m_socket.m_fd
  · rw [if_pos hlisten] at hthrew hcond
    by_cases hrefused : env.accepted.fd < 0
    · rw [accept_refused hrefused] at hthrew
      cases hthrew
    · have hfd : 0 ≤ env.accepted.fd := not_lt.mp hrefused
      obtain ⟨-, w', hok, -⟩ :=
        accept_agree h.inRun.inv.agree h.inRun.inv.consistent hfd (hpromised hfd)
        (hcond hfd).1 (hcond hfd).2
      rw [hok] at hthrew
      cases hthrew
  · rw [if_neg hlisten] at hthrew
    have hfewer := handleConnection_fewerTimes s.worker ready.fd ready.events env
    cases hhandled : s.worker.handleConnection ready.fd ready.events env with
    | undefined why =>
        rw [hhandled] at hthrew
        cases hthrew
    | threw e' w₁ =>
        rw [hhandled] at hthrew hfewer
        cases hthrew
        exact hfewer
    | ok w₁ =>
        rw [hhandled, Outcome.andThen_ok] at hthrew
        split at hthrew
        · rw [resetConnectionTime] at hthrew
          rcases eraseIdle_cases w₁.work ready.fd with ⟨hundef, -⟩ | ⟨time, -, hok⟩
          · rw [hundef] at hthrew
            cases hthrew
          · rw [hok] at hthrew
            cases hthrew
        · cases hthrew

theorem step_timely {server : BaseHTTPServer} {as : List (Int × Int)} {s s' : Running}
    (h : ActiveWorker server as s) {act : Act} (hpromised : s.Promised server act)
    (hkeeps : KeepsAgreement server s act) (hstep : s.Step server act s') :
    ActiveWorker server (as ++ s.active server act) s' := by
  have hkept : (Next.goesOn s').Keeps False (InRun server WorkerAgrees) :=
    step_agree h.inRun hpromised hkeeps hstep
  refine ⟨hkept, ?_⟩
  have hagree := h.inRun.inv.agree
  -- only the handling of an event counts
  have hquiet : s.active server act = [] → FewerTimes s.worker.work s'.worker.work →
      Timely (as ++ s.active server act) s'.worker.work := by
    intro hnil hfewer
    rw [hnil, List.append_nil]
    exact h.timely.fewer hfewer
  cases hstep.cases with
  | @dropped spare clock t hpoint hdrop =>
      obtain ⟨t', hok, hfewer⟩ := sweep_fewerTimes hagree server spare clock
      rw [hdrop] at hok
      cases hok
      exact hquiet rfl hfewer
  | @dropThrew spare clock e t hpoint hdrop =>
      obtain ⟨t', hok, -⟩ := sweep_fewerTimes hagree server spare clock
      rw [hdrop] at hok
      cases hok
  | waitedInVain hpoint => exact hquiet rfl fun _ _ htime => htime
  | waitFailed hpoint => exact hquiet rfl fun _ _ htime => htime
  | woken hpoint => exact hquiet rfl fun _ _ htime => htime
  | finished hpoint => exact hquiet rfl fun _ _ htime => htime
  | handled hpoint hok => exact handled_timely h hpoint hpromised hkeeps hok
  | @handleThrew ready rest env e w hpoint hthrew =>
      refine hquiet ?_ (dispatch_threw_fewerTimes h hpoint hpromised hkeeps hthrew)
      simp only [Running.active, hpoint, hthrew]

/-! ## Runs -/

/-- A run that keeps the tables in agreement, with the activities in it. -/
abbrev ActiveRun (server : BaseHTTPServer) : List (Int × Int) → Running → Prop :=
  Traced (Running.Step server) (fun s act => s.Promised server act ∧ KeepsAgreement server s act)
    (Running.active server) {}

theorem activeRun_timely {server : BaseHTTPServer} {as : List (Int × Int)} {s : Running}
    (hrun : ActiveRun server as s) : ActiveWorker server as s := by
  induction hrun with
  | refl =>
      refine ⟨inRun_top ⟨agree_new, Coroutine.Ordinator.consistent_new⟩, fun fd time htime => ?_⟩
      exact absurd htime (notMem_times_new fd time)
  | tail _ act hadmitted hstep ih => exact step_timely ih hadmitted.1 hadmitted.2 hstep

theorem timeDiff_mono {now now' : Int} (h : now ≤ now') (since : Int) :
    timeDiff now since ≤ timeDiff now' since := by
  apply Int.tdiv_le_tdiv
  · decide
  · omega

/-- **A worker drops exactly those clients whose last activity is too long ago.**  At a sweep of any
run whose steps keep the tables in agreement each client has been active.  It is dropped if its last
activity is too long ago for the first reading of the clock, and only if it is for one of the
readings; a client that is not dropped is left as it was. -/
theorem sweeps_follow_activity {server : BaseHTTPServer} {as : List (Int × Int)} {s s' : Running}
    (hrun : ActiveRun server as s) {spare : NewSocket} {clock : Nat → Int}
    (hclock : ∀ m n, m ≤ n → clock m ≤ clock n) (hstep : s.Step server (.drop spare clock) s')
    {fd : Int} {el : Element} (hclient : s.worker.work.m_connections.lookup fd = some el) :
    ∃ time, lastActive as fd = some time ∧
      (timeDiff (clock 0) time > server.m_timeout → fd ∉ s'.worker.work.m_connections) ∧
      (fd ∉ s'.worker.work.m_connections → ∃ n, timeDiff (clock n) time > server.m_timeout) ∧
      (fd ∈ s'.worker.work.m_connections → s'.worker.work.m_connections.lookup fd = some el ∧
        s'.worker.work.m_coroutines.lookup fd = s.worker.work.m_coroutines.lookup fd) := by
  have hactive := activeRun_timely hrun
  have hagree := hactive.inRun.inv.agree
  obtain ⟨time, htime⟩ := (hagree.tables.idle fd).mpr (OrdMap.mem_of_lookup hclient)
  obtain ⟨t', clients, hok, hdropped, -, hvisited, hleft⟩ :=
    sweep_of_agree hagree server spare clock
  have hwork : s'.worker.work = t' := by
    cases hstep.cases with
    | dropped hpoint hdrop =>
        rw [hok] at hdrop
        cases hdrop
        rfl
    | dropThrew hpoint hdrop =>
        rw [hok] at hdrop
        cases hdrop
  rw [hwork]
  have hentry : (time, fd) ∈ clients ++ t'.m_idleTime.entries :=
    hdropped.idle ▸ OrdMap.lookup_eq_some_iff.mp htime
  refine ⟨time, hactive.timely fd time htime, ?_⟩
  by_cases hgone : fd ∈ clients.map Prod.snd
  · -- the entry of the client was looked at, and it has no other
    obtain ⟨⟨since, fd'⟩, hi, hfd⟩ := List.mem_map.mp hgone
    obtain rfl : fd' = fd := hfd
    have hsince : since ∈ s.worker.work.times fd' :=
      OrdMap.lookup_eq_some_iff.mpr (hdropped.idle ▸ List.mem_append_left _ hi)
    have heq : since = time := hagree.tables.once fd' since time hsince htime
    subst heq
    obtain ⟨n, hn⟩ := List.mem_iff_getElem?.mp hi
    have hnone : fd' ∉ t'.m_connections := OrdMap.notMem_iff.mpr (hdropped.gone _ hi).1
    exact ⟨fun _ => hnone, fun _ => ⟨n, hvisited n _ hn⟩, fun hmem => absurd hmem hnone⟩
  · obtain ⟨hconn, hroutine⟩ := hdropped.kept fd hgone
    have hmem : fd ∈ t'.m_connections := OrdMap.mem_of_lookup (hconn.trans hclient)
    have hin : (time, fd) ∈ t'.m_idleTime.entries :=
      (List.mem_append.mp hentry).resolve_left fun hi => hgone (List.mem_map_of_mem hi)
    have hyoung : timeDiff (clock 0) time ≤ server.m_timeout :=
      (timeDiff_mono (hclock 0 _ (Nat.zero_le clients.length)) time).trans (hleft _ hin)
    refine ⟨fun hlate => ?_, fun hnot => absurd hmem hnot, fun _ => ⟨hconn.trans hclient, hroutine⟩⟩
    omega

/-! ### Two clients -/

/-- A client is accepted, from the top of the loop to its top. -/
theorem activeRun_accept {as : List (Int × Int)} {w w' : Worker}
    (h : ActiveRun serverOn3 as ⟨w, .top⟩) {fd now : Int} (hfd : 0 ≤ fd)
    (hdrop : Running.Step serverOn3 ⟨w, .top⟩ (.drop {} fun _ => now) ⟨w, .waiting⟩)
    (hunused : ∀ j el, w.work.m_connections.lookup j = some el → el.conn.m_socket.m_fd ≠ fd)
    (hnew : StampIsNew w.work fd now) (haccept : w.accept (accepting fd now).2 = .ok w') :
    ActiveRun serverOn3 (as ++ [(fd, now)]) ⟨w', .top⟩ := by
  have hlisten : (⟨3, 1⟩ : Ready).fd = serverOn3.m_socket.m_fd := rfl
  have hdispatch : w.dispatch serverOn3 ⟨3, 1⟩ (accepting fd now).2 = .ok w' := by
    rw [Worker.dispatch, if_pos hlisten, haccept]
  have hwaits := h.unseen (.drop {} fun _ => now) ⟨trivial, trivial⟩ hdrop rfl
  have hready : ActiveRun serverOn3 as ⟨w, .handling [⟨3, 1⟩]⟩ :=
    hwaits.unseen (.wait (.ready [⟨3, 1⟩])) ⟨listening_promised _, trivial⟩ rfl rfl
  have hkeeps : KeepsAgreement serverOn3 ⟨w, .handling [⟨3, 1⟩]⟩
      (.handle (accepting fd now).2) := by
    intro ready rest hpoint
    cases hpoint
    rw [if_pos hlisten]
    exact fun _ => ⟨rfl, hnew⟩
  have hactive : Running.active serverOn3 ⟨w, .handling [⟨3, 1⟩]⟩ (.handle (accepting fd now).2) =
      [(fd, now)] := by
    simp only [Running.active, hdispatch, if_pos hlisten]
    exact if_neg (not_lt.mpr hfd)
  have hhandled : ActiveRun serverOn3 (as ++ [(fd, now)]) ⟨w', .handling []⟩ := by
    have hstep : Running.Step serverOn3 ⟨w, .handling [⟨3, 1⟩]⟩ (.handle (accepting fd now).2)
        ⟨w', .handling []⟩ := by
      simp only [Running.Step, Running.step, hdispatch, caught]
    have hlast := hready.tail _ ⟨accepting_promised hunused, hkeeps⟩ hstep
    rwa [hactive] at hlast
  exact hhandled.unseen .finish ⟨trivial, trivial⟩ rfl rfl

/-- After a client that was accepted at the beginning, another one is
accepted half a minute later. -/
def halfMinuteLater : Worker :=
  match oneClient.accept (accepting 6 (30 * 10 ^ 9)).2 with
  | .ok w => w
  | _ => {}

theorem activeRun_halfMinuteLater :
    ActiveRun serverOn3 [(5, 1), (6, 30 * 10 ^ 9)] ⟨halfMinuteLater, .top⟩ := by
  have hunused : ∀ i ∈ oneClient.work.m_connections.entries, i.2.conn.m_socket.m_fd ≠ 6 := by
    decide +kernel
  have hnew : StampIsNew oneClient.work 6 (30 * 10 ^ 9) := by
    intro j _ htime
    have hnone : oneClient.work.m_idleTime.lookup (30 * 10 ^ 9) = none := by decide +kernel
    cases hnone.symm.trans htime
  have hfirst : ActiveRun serverOn3 [(5, 1)] ⟨oneClient, .top⟩ :=
    activeRun_accept .refl (by decide) rfl (fun j el h => by cases h)
      (fun j _ => notMem_times_new j 1) rfl
  exact activeRun_accept hfirst (by decide) rfl
    (fun j el h => hunused (j, el) (OrdMap.mem_of_lookup_eq_some h)) hnew rfl

/-- After sixty-five seconds the first client is dropped, and the second is not. -/
theorem sweeps_follow_activity_two : ∃ s', Running.Step serverOn3 ⟨halfMinuteLater, .top⟩
      (.drop {} fun _ => 65 * 10 ^ 9) s' ∧
    5 ∉ s'.worker.work.m_connections ∧ 6 ∈ s'.worker.work.m_connections := by
  have hrun := activeRun_halfMinuteLater
  obtain ⟨t, hok, -⟩ := sweep_fewerTimes (activeRun_timely hrun).inRun.inv.agree serverOn3 {}
    fun _ => 65 * 10 ^ 9
  have hstep : Running.Step serverOn3 ⟨halfMinuteLater, .top⟩ (.drop {} fun _ => 65 * 10 ^ 9)
      ⟨⟨t, halfMinuteLater.ordinator⟩, .waiting⟩ := by
    simp only [Running.Step, Running.step, hok, Outcome.map_ok, caught]
  have hclient : ∀ fd, fd = 5 ∨ fd = 6 →
      ∃ el, halfMinuteLater.work.m_connections.lookup fd = some el := by
    rintro fd (rfl | rfl)
    · exact Option.isSome_iff_exists.mp (by decide +kernel)
    · exact Option.isSome_iff_exists.mp (by decide +kernel)
  obtain ⟨el, hel⟩ := hclient 5 (Or.inl rfl)
  obtain ⟨el', hel'⟩ := hclient 6 (Or.inr rfl)
  obtain ⟨time, htime, hgone, -⟩ := sweeps_follow_activity hrun (fun _ _ _ => le_refl _) hstep hel
  obtain ⟨time', htime', -, hlate, -⟩ :=
    sweeps_follow_activity hrun (fun _ _ _ => le_refl _) hstep hel'
  refine ⟨_, hstep, hgone ?_, not_not.mp fun hnot => ?_⟩
  · cases htime
    decide
  · obtain ⟨-, hn⟩ := hlate hnot
    cases htime'
    revert hn
    decide

end HTTP
end AdvCppHW
