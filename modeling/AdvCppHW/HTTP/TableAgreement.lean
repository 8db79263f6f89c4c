import AdvCppHW.HTTP.ClientView
import AdvCppHW.HTTP.WorkerRun
import AdvCppHW.Support.Transition

/-!
# Agreement of a worker's tables

`m_connections`, `m_coroutines`, `m_idleTime` and the epoll hold the same descriptors, each of them
once, as long as no two clients are given the same idle time and each client's event resumes the
client's own coroutine.

* `AgreesOn` — agreement on one descriptor; `Agree` — on all.
* `handleConnection_agree`, `resetConnectionTime_agree`, `accept_agree`, `sweep_agree` — what the
  members keep; `step_agree` — what a step of the loop keeps.
* `tables_agree` — the invariant over whole runs; `equal_stamps_disagree` — two clients accepted at
  one reading of the clock.
-/

namespace AdvCppHW
namespace HTTP

open Coroutine ThreadWork Worker

/-- The tables hold a client with this descriptor. -/
def View.Present (fd : Int) (v : View) : Prop :=
  ∃ el id, v = ⟨some el, some id, true⟩ ∧ el.conn.m_socket.m_fd = fd

/-- The tables know nothing about a descriptor, or hold a client that has one idle time. -/
def AgreesOn (t : ThreadWork) (fd : Int) : Prop :=
  (t.view fd = .absent ∧ ∀ time, time ∉ t.times fd) ∨
    (View.Present fd (t.view fd) ∧ ∃! time, time ∈ t.times fd)

/-- The tables agree on every descriptor. -/
def Agree (t : ThreadWork) : Prop := ∀ fd, AgreesOn t fd

/-- Only the descriptor `fd` sees a difference in `m_idleTime`. -/
def SameTimesBut (fd : Int) (t t' : ThreadWork) : Prop :=
  ∀ j, j ≠ fd → ∀ time, time ∈ t'.times j ↔ time ∈ t.times j

theorem agree_new : Agree {} := fun fd => Or.inl ⟨rfl, notMem_times_new fd⟩

theorem AgreesOn.congr {t t' : ThreadWork} {fd : Int} (h : AgreesOn t fd)
    (hview : t'.view fd = t.view fd) (htimes : ∀ time, time ∈ t'.times fd ↔ time ∈ t.times fd) :
    AgreesOn t' fd := by
  unfold AgreesOn at h ⊢
  simpa only [hview, htimes] using h

/-- Agreement on one descriptor is enough where nothing else has changed. -/
theorem Agree.but {t t' : ThreadWork} {fd : Int} (h : Agree t) (hview : SameBut fd t t')
    (htimes : SameTimesBut fd t t') (hfd : AgreesOn t' fd) : Agree t' := by
  intro j
  by_cases hj : j = fd
  · exact hj ▸ hfd
  · exact (h j).congr (hview j hj) (htimes j hj)

theorem sameTimesBut_of_idle {t t' : ThreadWork} (h : t'.m_idleTime = t.m_idleTime) (fd : Int) :
    SameTimesBut fd t t' := by
  intro j _ time
  rw [mem_times, mem_times, h]

/-- Erasing an idle time of `fd` is not seen by the others. -/
theorem sameTimesBut_erase {t t' : ThreadWork} {fd time : Int} (htime : time ∈ t.times fd)
    (h : t'.m_idleTime = t.m_idleTime.erase time) : SameTimesBut fd t t' := by
  intro j hj time'
  rw [mem_times, h, Support.OrdMap.lookup_erase_eq_some, ← mem_times]
  refine and_iff_right_of_imp ?_
  rintro hmem rfl
  exact hj (Option.some.inj ((mem_times.mp hmem).symm.trans (mem_times.mp htime)))

theorem AgreesOn.present {t : ThreadWork} {fd : Int} (h : AgreesOn t fd)
    (hmem : fd ∈ t.m_connections ∨ fd ∈ t.registered ∨ ∃ time, time ∈ t.times fd) :
    View.Present fd (t.view fd) ∧ ∃! time, time ∈ t.times fd := by
  refine h.resolve_left ?_
  rintro ⟨hview, hnone⟩
  rcases hmem with hmem | hmem | ⟨time, hmem⟩
  · exact hmem (congrArg View.element hview)
  · have hreg : decide (fd ∈ t.registered) = false := congrArg View.registered hview
    exact absurd hmem (of_decide_eq_false hreg)
  · exact hnone time hmem

/-! ## Erasing a client -/

/-- A client that loses its only idle time with everything else is gone. -/
theorem Agree.erased {t t' : ThreadWork} {fd time : Int} (h : Agree t) (htime : time ∈ t.times fd)
    (hidle : t'.m_idleTime = t.m_idleTime.erase time) (hview : t'.view fd = .absent)
    (hsame : SameBut fd t t') : Agree t' := by
  refine h.but hsame (sameTimesBut_erase htime hidle) (Or.inl ⟨hview, ?_⟩)
  obtain ⟨-, only, -, honly⟩ := (h fd).present (Or.inr (Or.inr ⟨time, htime⟩))
  intro time' hmem
  rw [mem_times, hidle, Support.OrdMap.lookup_erase_eq_some] at hmem
  exact hmem.1 ((honly time' hmem.2).trans (honly time htime).symm)

/-! ## Handling an event -/

/-- The coroutine that an event of `fd` resumes is the client's own and can be resumed, unless it is
marked as finished and is not resumed at all. -/
def ResumesOwn (w : Worker) (fd : Int) : Prop :=
  ∀ el id r, w.work.m_connections.lookup fd = some el → w.work.m_coroutines.lookup fd = some id →
    w.ordinator.routine? id = some r →
      r.finished = true ∨ (r.ctx ≠ .ended ∧ r.func = ⟨fd, el.uid⟩)

/-- A handler ended without undefined behaviour and left the tables in agreement; about other
descriptors nothing has changed. -/
structure LeftInAgreement (fd : Int) (w w' : Worker) : Prop where
  agree : Agree w'.work
  consistent : w'.ordinator.Consistent
  view : SameBut fd w.work w'.work
  times : SameTimesBut fd w.work w'.work

/-- A client that is still in all tables has kept its idle time. -/
theorem leftInAgreement_of_idle {w : Worker} (hagree : Agree w.work) (w' : Worker)
    (ho : w'.ordinator.Consistent) {fd : Int} (hsame : SameBut fd w.work w'.work)
    (hidle : w'.work.m_idleTime = w.work.m_idleTime) (hpresent : View.Present fd (w'.work.view fd))
    (hstamp : ∃! time, time ∈ w.work.times fd) : LeftInAgreement fd w w' := by
  have htimes := sameTimesBut_of_idle hidle fd
  refine ⟨hagree.but hsame htimes (Or.inr ⟨hpresent, ?_⟩), ho, hsame, htimes⟩
  simpa only [mem_times, hidle] using hstamp

/-- The rest of `handleConnection`, from tables in which the client may have been closed. -/
theorem afterResume_agree {w : Worker} (w₁ : Worker) (hagree : Agree w.work)
    (ho : w₁.ordinator.Consistent) {fd : Int} {el : Element} {id : Nat} {reg : Bool}
    (h : w₁.work.view fd = ⟨some el, some id, reg⟩)
    (hsock : SocketOf el.conn fd) (hopen : el.conn.m_opened = true → reg = true)
    (hsame : SameBut fd w.work w₁.work) (hidle : w₁.work.m_idleTime = w.work.m_idleTime)
    (hstamp : ∃! time, time ∈ w.work.times fd) (spare : NewSocket) :
    ∃ w', w₁.afterResume fd spare = .ok w' ∧ LeftInAgreement fd w w' := by
  have htimes : ∀ {time}, time ∈ w₁.work.times fd ↔ time ∈ w.work.times fd := by
    intro time
    rw [mem_times, mem_times, hidle]
  cases hres : w₁.afterResume fd spare with
  | threw e w' =>
      have hcases := afterResume_cases h hsock spare
      rw [hres] at hcases
      cases hcases
  | undefined why =>
      have hcases := afterResume_cases h hsock spare
      rw [hres] at hcases
      cases hcases with
      | eraseOfEnd hclosed hnone =>
          obtain ⟨time, hmem, -⟩ := hstamp
          exact absurd (htimes.mpr hmem) (hnone time)
  | ok w' =>
      have hcases := afterResume_cases h hsock spare
      rw [hres] at hcases
      refine ⟨w', rfl, ?_⟩
      cases hcases with
      | @disconnected t time hclosed htime hidle' hview' hsame' =>
          have hidle'' : t.m_idleTime = w.work.m_idleTime.erase time := hidle ▸ hidle'
          exact ⟨hagree.erased (htimes.mp htime) hidle'' hview' (hsame.trans hsame'), ho,
            hsame.trans hsame', sameTimesBut_erase (htimes.mp htime) hidle''⟩
      | @created t hop hempty hidle' hview' hsame' =>
          have hpresent : View.Present fd (t.view fd) :=
            ⟨{ el with conn := el.conn.clearEvents }, _, hopen hop ▸ hview', hsock.opened hop⟩
          exact leftInAgreement_of_idle hagree ⟨t, _⟩ (ho.create _) (hsame.trans hsame')
            (hidle'.trans hidle) hpresent hstamp
      | @kept t hop hne hidle' hview' hsame' =>
          have hpresent : View.Present fd (t.view fd) :=
            ⟨{ el with conn := el.conn.clearEvents }, _, hopen hop ▸ hview', hsock.opened hop⟩
          exact leftInAgreement_of_idle hagree ⟨t, _⟩ ho (hsame.trans hsame') (hidle'.trans hidle)
            hpresent hstamp

/-- An event of a client keeps the agreement when it resumes no other client's coroutine. -/
theorem handleConnection_agree {w : Worker} (hagree : Agree w.work) (ho : w.ordinator.Consistent)
    {fd : Int} (hpresent : View.Present fd (w.work.view fd)) (hown : ResumesOwn w fd)
    (events : UInt32) (env : Env) :
    (w.handleConnection fd events env).Leaves False (LeftInAgreement fd w) := by
  obtain ⟨el, id, hview, hsock⟩ := hpresent
  have hlookup := lookup_of_view hview
  have hstamp := ((hagree fd).present (Or.inl (Support.OrdMap.mem_of_lookup hlookup))).2
  by_cases hfinished : ∀ r, w.ordinator.routine? id = some r → r.finished = true
  · -- `resume` returns false, and the client is checked all the same
    obtain ⟨hview', hsame⟩ := view_atResume hview hsock events
    obtain ⟨w', hok, hleft⟩ :=
      afterResume_agree ⟨w.atResume fd el events, w.ordinator⟩ hagree ho hview'
      (socketOf_setEvent hsock events) (fun _ => rfl) hsame rfl hstamp env.spare
    rw [handleConnection_finished hview hfinished, hok]
    exact hleft
  · push Not at hfinished
    obtain ⟨r, hr, hunfinished⟩ := hfinished
    obtain ⟨hctx, hfunc⟩ :=
      (hown el id r hlookup (congrArg View.routine hview) hr).resolve_left hunfinished
    have hends := handleConnection_own ho hview hr hctx hfunc events env
    obtain ⟨hsocket, hsame, hidle, reg, hview', hkept⟩ :=
      view_afterStretch hview hsock r events env.script
    let s := stretchOf el r events env.script
    let bound := w.ordinator.boundIn r.ctx
    have ho' := ho.afterStretch hr hctx bound s.ended.toEnded
    rcases hends with ⟨hrest, -⟩ | ⟨e, hthrew, -, hres⟩
    · obtain ⟨w', hok, hleft⟩ := afterResume_agree
        ⟨w.afterStretch fd el events s, w.ordinator.afterStretch id bound s.ended.toEnded⟩
        hagree ho' hview' hsocket (fun hop => (hkept (Or.inl hop)).1) hsame hidle hstamp env.spare
      rw [hrest, hok]
      exact hleft
    · -- the exception leaves `handleConnection` with the client in all tables
      obtain ⟨rfl, hfd⟩ := hkept (Or.inr (hthrew ▸ nofun))
      rw [hres]
      exact leftInAgreement_of_idle hagree ⟨_, _⟩ ho' hsame hidle ⟨_, _, hview', hfd⟩ hstamp

/-! ## Idle times -/

/-- No other client has this idle time. -/
def StampIsNew (t : ThreadWork) (fd : Int) (now : Int) : Prop := ∀ j, j ≠ fd → now ∉ t.times j

theorem notMem_idle {t : ThreadWork} {fd now : Int} (hnew : StampIsNew t fd now)
    (hfd : now ∉ t.times fd) : now ∉ t.m_idleTime := by
  rw [Support.OrdMap.mem_iff]
  rintro ⟨j, hj⟩
  by_cases hjfd : j = fd
  · exact hfd (hjfd ▸ hj)
  · exact hnew j hjfd hj

/-- A new idle time of `fd` is not seen by the others. -/
theorem sameTimesBut_insertNew {t : ThreadWork} {now : Int} (hnow : now ∉ t.m_idleTime) (fd : Int) :
    SameTimesBut fd t { t with m_idleTime := t.m_idleTime.insertNew now fd } := by
  intro j hj time
  rw [mem_times_insertNew hnow]
  simp [hj]

/-- `resetConnectionTime` of a client gives it one new idle time, if no other client has that. -/
theorem resetConnectionTime_agree {t : ThreadWork} (h : Agree t) {fd now : Int}
    (hpresent : View.Present fd (t.view fd)) (hnew : StampIsNew t fd now) :
    ∃ t', t.resetConnectionTime fd now = .ok t' ∧ Agree t' ∧ ∀ j, t'.view j = t.view j := by
  obtain ⟨el, id, hview, -⟩ := id hpresent
  obtain ⟨time, htime, honly⟩ :=
    ((h fd).present (Or.inl (Support.OrdMap.mem_of_lookup (lookup_of_view hview)))).2
  rcases eraseIdle_cases t fd with ⟨-, hnone⟩ | ⟨time', htime', hok⟩
  · exact absurd htime (hnone time)
  · -- between the erasure and the insertion the client has no idle time
    let t₁ : ThreadWork := { t with m_idleTime := t.m_idleTime.erase time' }
    have hbut : SameTimesBut fd t t₁ := sameTimesBut_erase htime' rfl
    have hnone : ∀ τ, τ ∉ t₁.times fd := by
      intro τ hτ
      obtain ⟨hne, hmem⟩ := mem_times_erase.mp hτ
      exact hne ((honly τ hmem).trans (honly time' htime').symm)
    have hnow : now ∉ t₁.m_idleTime :=
      notMem_idle (fun j hj hmem => hnew j hj ((hbut j hj now).mp hmem)) (hnone now)
    refine ⟨{ t₁ with m_idleTime := t₁.m_idleTime.insertNew now fd }, ?_, ?_, fun _ => rfl⟩
    · rw [resetConnectionTime, hok]
      rfl
    refine Agree.but h (t := t) (fun _ _ => rfl) ?_ (Or.inr ⟨hpresent, now, ?_, ?_⟩)
    · exact fun j hj τ => (sameTimesBut_insertNew hnow fd j hj τ).trans (hbut j hj τ)
    · exact (mem_times_insertNew hnow).mpr (Or.inl ⟨rfl, rfl⟩)
    · intro τ hτ
      rcases (mem_times_insertNew hnow).mp hτ with ⟨hτ, -⟩ | hτ
      · exact hτ
      · exact absurd hτ (hnone τ)

/-- Timed-out clients are erased one after another from the front of `m_idleTime`. -/
theorem sweep_agree {t : ThreadWork} (h : Agree t) (server : BaseHTTPServer) (spare : NewSocket)
    (clock : Nat → Int) :
    (t.dropTimeoutedConnections server spare clock).Leaves False Agree := by
  refine sweep_invariant (D := fun _ => True) (fun t since fd ht _ hsince => ?_) h rfl clock
    fun _ _ => trivial
  obtain ⟨⟨el, id, hview, hsock⟩, only, -, honly⟩ :=
    (ht fd).present (Or.inr (Or.inr ⟨since, hsince⟩))
  rcases disconnectClient_cases (lookup_of_view hview) (Or.inl hsock) spare with
    ⟨-, hnone⟩ | ⟨t', time, htime, hok, hidle, habsent, hsame⟩
  · exact absurd hsince (hnone since)
  · -- `find_if` finds the element that the loop stands on: the client has no other
    have hfirst : time = since := (honly time htime).trans (honly since hsince).symm
    rw [hok]
    exact ⟨hfirst ▸ hidle, ht.erased htime hidle habsent hsame⟩

/-! ## Accepting -/

/-- A client that is accepted under an unused descriptor is in all tables, if no other
client has its idle time. -/
theorem accept_agree {w : Worker} (hagree : Agree w.work) (ho : w.ordinator.Consistent) {env : Env}
    (hfd : 0 ≤ env.accepted.fd)
    (hunused : ∀ fd el, w.work.m_connections.lookup fd = some el →
      el.conn.m_socket.m_fd ≠ env.accepted.fd)
    (hadded : env.added = true) (hnew : StampIsNew w.work env.accepted.fd env.now) :
    w.work.view env.accepted.fd = .absent ∧
      ∃ w', w.accept env = .ok w' ∧ Agree w'.work ∧ w'.ordinator.Consistent ∧
        SameBut env.accepted.fd w.work w'.work := by
  have habsent : w.work.view env.accepted.fd = .absent ∧
      ∀ time, time ∉ w.work.times env.accepted.fd := by
    refine (hagree env.accepted.fd).resolve_right ?_
    rintro ⟨⟨el, id, hview, hsock⟩, -⟩
    exact hunused _ el (lookup_of_view hview) hsock
  obtain ⟨t, hok, hview, hsame, hidle⟩ := accept_fresh hfd habsent.1 hadded
  have hnow : env.now ∉ w.work.m_idleTime := notMem_idle hnew (habsent.2 env.now)
  have htimes : ∀ {j time}, time ∈ t.times j ↔
      time = env.now ∧ j = env.accepted.fd ∨ time ∈ w.work.times j := by
    intro j time
    rw [mem_times, hidle]
    exact mem_times_insertNew hnow
  refine ⟨habsent.1, _, hok, ?_, ho.create _, hsame⟩
  refine hagree.but hsame ?_
    (Or.inr ⟨⟨_, _, hview, rfl⟩, env.now, htimes.mpr (Or.inl ⟨rfl, rfl⟩), ?_⟩)
  · intro j hj time
    rw [htimes]
    simp [hj]
  · intro time htime
    exact (htimes.mp htime).elim And.left fun hmem => absurd hmem (habsent.2 time)

/-! ## Steps and runs -/

/-- The condition under which handling an event keeps the tables in agreement: no other client
has the idle time that is read, an accepted descriptor is registered, and a client's event
resumes its own coroutine. -/
def KeepsAgreement (server : BaseHTTPServer) (s : Running) : Act → Prop
  | .handle env => ∀ ready rest, s.point = .handling (ready :: rest) →
      if ready.fd = server.m_socket.m_fd then
        0 ≤ env.accepted.fd →
          env.added = true ∧ StampIsNew s.worker.work env.accepted.fd env.now
      else
        ResumesOwn s.worker ready.fd ∧ StampIsNew s.worker.work ready.fd env.now
  | _ => True

/-- What holds of the worker in every state of a run. -/
structure WorkerAgrees (w : Worker) : Prop where
  agree : Agree w.work
  consistent : w.ordinator.Consistent

theorem registered_of_view {t t' : ThreadWork} {j : Int} (h : t'.view j = t.view j)
    (hj : j ∈ t.registered) : j ∈ t'.registered := by
  have hreg : decide (j ∈ t'.registered) = decide (j ∈ t.registered) := congrArg View.registered h
  rw [decide_eq_true hj] at hreg
  exact of_decide_eq_true hreg

theorem keepsRegistered_of_sameBut {t t' : ThreadWork} {fd : Int} (h : SameBut fd t t') :
    KeepsRegistered fd t t' :=
  fun j hj => registered_of_view (h j hj)

/-- A descriptor that the tables did not know was not registered either. -/
theorem keepsRegistered_of_absent {t t' : ThreadWork} {fd : Int} (h : SameBut fd t t')
    (habsent : t.view fd = .absent) (fd' : Int) : KeepsRegistered fd' t t' := by
  intro j _ hj
  refine registered_of_view (h j ?_) hj
  rintro rfl
  exact of_decide_eq_false (congrArg View.registered habsent) hj

/-- Handling an event keeps the agreement, and all other descriptors registered. -/
theorem dispatch_agree {server : BaseHTTPServer} {w : Worker} (h : WorkerAgrees w) {ready : Ready}
    (hready : ready.fd = server.m_socket.m_fd ∨ ready.fd ∈ w.work.registered) {env : Env}
    (hunused : 0 ≤ env.accepted.fd → ∀ fd el, w.work.m_connections.lookup fd = some el →
      el.conn.m_socket.m_fd ≠ env.accepted.fd)
    (hcond : if ready.fd = server.m_socket.m_fd then
        0 ≤ env.accepted.fd → env.added = true ∧ StampIsNew w.work env.accepted.fd env.now
      else ResumesOwn w ready.fd ∧ StampIsNew w.work ready.fd env.now) :
    (w.dispatch server ready env).Leaves False
      fun w' => WorkerAgrees w' ∧ KeepsRegistered ready.fd w.work w'.work := by
  refine dispatch_leaves (P := LeftInAgreement ready.fd w) (fun hlisten => ?_) (fun hclient => ?_)
    (fun w₁ hclient hleft hmem => ?_) fun w₁ hleft => ?_
  · rw [if_pos hlisten] at hcond
    by_cases hfd : 0 ≤ env.accepted.fd
    · obtain ⟨hadded, hnew⟩ := hcond hfd
      obtain ⟨habsent, w', hok, hagree', ho', hsame⟩ :=
        accept_agree h.agree h.consistent hfd (hunused hfd) hadded hnew
      rw [hok]
      exact ⟨⟨hagree', ho'⟩, keepsRegistered_of_absent hsame habsent ready.fd⟩
    · rw [accept_refused (not_le.mp hfd)]
      exact ⟨h, fun _ _ hj => hj⟩
  · rw [if_neg hclient] at hcond
    have hpresent := ((h.agree ready.fd).present (Or.inr (Or.inl (hready.resolve_left hclient)))).1
    exact handleConnection_agree h.agree h.consistent hpresent hcond.1 ready.events env
  · rw [if_neg hclient] at hcond
    have hnew : StampIsNew w₁.work ready.fd env.now :=
      fun j hj hstamp => hcond.2 j hj ((hleft.times j hj _).mp hstamp)
    obtain ⟨t, hreset, hagree', hview⟩ := resetConnectionTime_agree hleft.agree
      ((hleft.agree ready.fd).present (Or.inl hmem)).1 hnew
    rw [hreset]
    refine ⟨⟨hagree', hleft.consistent⟩, fun j hj hreg => ?_⟩
    exact registered_of_view (hview j) (keepsRegistered_of_sameBut hleft.view j hj hreg)
  · exact ⟨⟨hleft.agree, hleft.consistent⟩, keepsRegistered_of_sameBut hleft.view⟩

/-- A step of the loop keeps the agreement and is not undefined. -/
theorem step_agree {server : BaseHTTPServer} {s : Running} (h : InRun server WorkerAgrees s)
    {act : Act} (hpromised : s.Promised server act) (hcond : KeepsAgreement server s act)
    {next : Next}
    (hstep : s.step server act = some next) : next.Keeps False (InRun server WorkerAgrees) := by
  refine step_keeps (fun spare clock _ hw => ?_) (fun ready rest env hpoint hact hw hready => ?_) h
    hpromised hstep
  · exact (sweep_agree hw.agree server spare clock).mono fun t ht => ⟨ht, hw.consistent⟩
  · subst hact
    exact dispatch_agree hw hready hpromised (hcond ready rest hpoint)

/-- The tables of a worker hold the same descriptors, each of them once in `m_idleTime`. -/
structure TablesAgree (t : ThreadWork) : Prop where
  coroutines : ∀ fd, fd ∈ t.m_coroutines ↔ fd ∈ t.m_connections
  idle : ∀ fd, (∃ time, t.m_idleTime.lookup time = some fd) ↔ fd ∈ t.m_connections
  once : ∀ fd time time', t.m_idleTime.lookup time = some fd → t.m_idleTime.lookup time' = some fd →
    time = time'
  registered : ∀ fd, fd ∈ t.registered ↔ fd ∈ t.m_connections

theorem Agree.tables {t : ThreadWork} (h : Agree t) : TablesAgree t where
  coroutines fd := by
    rcases h fd with ⟨hview, -⟩ | ⟨⟨el, id, hview, -⟩, -⟩
    · exact iff_of_false (Support.OrdMap.notMem_iff.mpr (congrArg View.routine hview))
        (Support.OrdMap.notMem_iff.mpr (congrArg View.element hview))
    · exact iff_of_true (Support.OrdMap.mem_of_lookup (congrArg View.routine hview))
        (Support.OrdMap.mem_of_lookup (congrArg View.element hview))
  idle fd := by
    rcases h fd with ⟨hview, hnone⟩ | ⟨⟨el, id, hview, -⟩, time, htime, -⟩
    · exact iff_of_false (fun ⟨time, htime⟩ => hnone time htime)
        (Support.OrdMap.notMem_iff.mpr (congrArg View.element hview))
    · exact iff_of_true ⟨time, htime⟩ (Support.OrdMap.mem_of_lookup (congrArg View.element hview))
  once fd time time' htime htime' := by
    obtain ⟨-, only, -, honly⟩ := (h fd).present (Or.inr (Or.inr ⟨time, htime⟩))
    exact (honly time htime).trans (honly time' htime').symm
  registered fd := by
    rcases h fd with ⟨hview, -⟩ | ⟨⟨el, id, hview, -⟩, -⟩
    · exact iff_of_false (of_decide_eq_false (congrArg View.registered hview))
        (Support.OrdMap.notMem_iff.mpr (congrArg View.element hview))
    · exact iff_of_true (of_decide_eq_true (congrArg View.registered hview))
        (Support.OrdMap.mem_of_lookup (congrArg View.element hview))

/-- In a run whose steps keep the agreement the tables agree in every state, and no step is
undefined: whenever an idle time is to be erased there is one. -/
theorem tables_agree {server : BaseHTTPServer} {s : Running}
    (hrun : Support.Reaches (Running.Step server)
      (fun s act => s.Promised server act ∧ KeepsAgreement server s act) {} s) :
    TablesAgree s.worker.work ∧
      ∀ act why, s.Promised server act → KeepsAgreement server s act →
        s.step server act ≠ some (.undefined why) := by
  have hinv : InRun server WorkerAgrees s := by
    refine hrun.invariant (fun s act s' hinv hadmitted hs => ?_)
      (inRun_top ⟨agree_new, Ordinator.consistent_new⟩)
    show (Next.goesOn s').Keeps False (InRun server WorkerAgrees)
    exact step_agree hinv hadmitted.1 hadmitted.2 hs
  exact ⟨hinv.inv.agree.tables,
    fun act why hpromised hcond hstep => step_agree hinv hpromised hcond hstep⟩

/-- A run in which one client was accepted. -/
theorem tables_agree_oneClient :
    ∃ s, Support.Reaches (Running.Step serverOn3)
        (fun s act => s.Promised serverOn3 act ∧ KeepsAgreement serverOn3 s act) {} s ∧
      s.worker.work.m_connections.lookup 5 ≠ none ∧ TablesAgree s.worker.work := by
  have hkeeps : KeepsAgreement serverOn3 ⟨{}, .handling [⟨3, 1⟩]⟩ (.handle (accepting 5 1).2) := by
    intro ready rest hpoint
    cases hpoint
    exact fun _ => ⟨rfl, fun j _ => notMem_times_new j 1⟩
  have hrun : Support.Reaches (Running.Step serverOn3)
      (fun s act => s.Promised serverOn3 act ∧ KeepsAgreement serverOn3 s act)
      {} ⟨oneClient, .top⟩ :=
    reaches_oneClient ⟨trivial, trivial⟩ ⟨listening_promised _, trivial⟩
      ⟨accepting_promised_first 5 1, hkeeps⟩ ⟨trivial, trivial⟩
  exact ⟨_, hrun, by decide, (tables_agree hrun).1⟩

/-- A step in which no system call fails. -/
def NoCallFails (_ : Running) : Act → Prop
  | .handle env => env.added = true ∧ (∀ e, .failed e ∉ env.script.reads) ∧
      ∀ e, .failed e ∉ env.script.writes
  | .wait result => result ≠ .failed
  | _ => True

theorem noCallFails_ready (s : Running) (events : List Ready) :
    NoCallFails s (.wait (.ready events)) := nofun

/-- Two clients that are accepted at one reading of the clock: the second is not stored in
`m_idleTime`, and its first event erases the end of `m_idleTime`. -/
theorem equal_stamps_disagree :
    ∃ s, Support.Reaches (Running.Step serverOn3)
        (fun s act => s.Promised serverOn3 act ∧ NoCallFails s act) {} s ∧
      s.point = .top ∧ ¬TablesAgree s.worker.work ∧
      (batch serverOn3 s.worker
        [(⟨6, 1⟩, { script := { onRequest := fun _ => .error .out_of_range } })]).2 =
        .undefined .eraseOfEnd := by
  have hcalls : ∀ fd now, NoCallFails {} (.handle (accepting fd now).2) :=
    fun _ _ => ⟨rfl, by simp [accepting, peerGone], by simp [accepting, peerGone]⟩
  have hunused : ∀ j el, oneClient.work.m_connections.lookup j = some el →
      el.conn.m_socket.m_fd ≠ 6 := by
    intro j el h
    have hmem : (j, el) ∈ [((5 : Int), (⟨0, .ofFD 5 0⟩ : Element))] :=
      Support.OrdMap.mem_of_lookup_eq_some h
    cases List.mem_singleton.mp hmem
    decide
  have hfirst : Support.Reaches (Running.Step serverOn3)
      (fun s act => s.Promised serverOn3 act ∧ NoCallFails s act) {} ⟨oneClient, .top⟩ :=
    reaches_oneClient ⟨trivial, trivial⟩ ⟨listening_promised _, noCallFails_ready _ _⟩
      ⟨accepting_promised_first 5 1, hcalls 5 1⟩ ⟨trivial, trivial⟩
  have hsecond : Support.Reaches (Running.Step serverOn3)
      (fun s act => s.Promised serverOn3 act ∧ NoCallFails s act) {} _ :=
    ((reaches_ready hfirst [⟨3, 1⟩] rfl ⟨trivial, trivial⟩
      ⟨listening_promised _, noCallFails_ready _ _⟩).tail
      ⟨.handle (accepting 6 1).2, ⟨accepting_promised hunused, hcalls 6 1⟩, rfl⟩).tail
      ⟨.finish, ⟨trivial, trivial⟩, rfl⟩
  refine ⟨_, hsecond, rfl, fun h => ?_, by decide +kernel⟩
  obtain ⟨time, htime⟩ := (h.idle 6).mpr (by decide)
  have hmem : (time, (6 : Int)) ∈ [((1 : Int), (5 : Int))] :=
    Support.OrdMap.mem_of_lookup_eq_some htime
  cases List.mem_singleton.mp hmem

end HTTP
end AdvCppHW
