import AdvCppHW.HTTP.Resumption
import AdvCppHW.HTTP.TableAgreement

/-!
# Invariants that hold of each client

An invariant of a worker that is a property of each client, of what the tables and the routine table
hold about it.  Every member of `ThreadWork` works for one client, and what has to be shown for the
others is that the routine table has kept what they need.

* `Each` — the invariant, from the property of one client; `Each.but` — a step for one descriptor,
  and `Each.erased`, `Each.kept`, `Each.accepted` — the ways in which that can go.
* `resetConnectionTime_each`, `sweep_each` — members that keep every such invariant.
* `handleConnection_outcome` — all that `handleConnection` can come to for a client whose event
  resumes its own coroutine or none; `accept_outcome` — all that `accept` can come to.
-/

namespace AdvCppHW
namespace HTTP

open Coroutine ThreadWork Worker

/-- A property of a client: of the routine table, its descriptor and what
the tables hold about it. -/
abbrev ClientProperty := Ordinator ConnectionRef Frame → Int → View → Prop

/-- The tables know nothing about a descriptor, or hold a client with `Q` that has at most one idle
time. -/
def HoldsOn (Q : ClientProperty) (w : Worker) (fd : Int) : Prop :=
  (w.work.view fd = .absent ∧ ∀ time, time ∉ w.work.times fd) ∨
    (Q w.ordinator fd (w.work.view fd) ∧ (w.work.times fd).Subsingleton)

def Each (Q : ClientProperty) (w : Worker) : Prop := ∀ fd, HoldsOn Q w fd

/-- A client with `Q` has an element, whose socket is its own. -/
def ClientProperty.Seated (Q : ClientProperty) : Prop :=
  ∀ o fd v, Q o fd v → ∃ el, v.element = some el ∧ el.conn.m_socket.m_fd = fd

section Each

variable {Q : ClientProperty} {w : Worker}

theorem each_new : Each Q {} := fun fd => Or.inl ⟨rfl, notMem_times_new fd⟩

theorem HoldsOn.client {fd : Int} (h : HoldsOn Q w fd)
    (hmem : fd ∈ w.work.m_connections ∨ fd ∈ w.work.registered ∨ ∃ time, time ∈ w.work.times fd) :
    Q w.ordinator fd (w.work.view fd) ∧ (w.work.times fd).Subsingleton := by
  refine h.resolve_left ?_
  rintro ⟨hview, hnone⟩
  rcases hmem with hmem | hmem | ⟨time, hmem⟩
  · exact hmem (congrArg View.element hview)
  · exact of_decide_eq_false (congrArg View.registered hview) hmem
  · exact hnone time hmem

/-- What has to be shown when all descriptors but one keep their tables. -/
theorem Each.but (h : Each Q w) (w' : Worker) {fd : Int} (hview : SameBut fd w.work w'.work)
    (htimes : ∀ j, j ≠ fd → ∀ time, time ∈ w'.work.times j → time ∈ w.work.times j)
    (hothers : ∀ j, j ≠ fd → Q w.ordinator j (w.work.view j) → Q w'.ordinator j (w.work.view j))
    (hfd : HoldsOn Q w' fd) : Each Q w' := by
  intro j
  by_cases hj : j = fd
  · exact hj ▸ hfd
  · have hsub : w'.work.times j ⊆ w.work.times j := fun time => htimes j hj time
    unfold HoldsOn
    rw [hview j hj]
    rcases h j with ⟨habsent, hnone⟩ | ⟨hQ, honce⟩
    · exact Or.inl ⟨habsent, fun time hmem => hnone time (hsub hmem)⟩
    · exact Or.inr ⟨hothers j hj hQ, honce.anti hsub⟩

/-- A client that loses its only idle time with everything else is gone. -/
theorem Each.erased (h : Each Q w) (w' : Worker) {fd time : Int}
    (hothers : ∀ j, j ≠ fd → Q w.ordinator j (w.work.view j) → Q w'.ordinator j (w.work.view j))
    (htime : time ∈ w.work.times fd) (hidle : w'.work.m_idleTime = w.work.m_idleTime.erase time)
    (hview : w'.work.view fd = .absent) (hsame : SameBut fd w.work w'.work) : Each Q w' := by
  refine h.but w' hsame (fun j hj time' => (sameTimesBut_erase htime hidle j hj time').mp) hothers
    (Or.inl ⟨hview, ?_⟩)
  have honce := ((h fd).client (Or.inr (Or.inr ⟨time, htime⟩))).2
  intro time' hmem
  rw [mem_times, hidle, Support.OrdMap.lookup_erase_eq_some] at hmem
  exact hmem.1 (honce hmem.2 htime)

/-- A client that keeps its idle times. -/
theorem Each.kept (h : Each Q w) (w' : Worker) {fd : Int} (hview : SameBut fd w.work w'.work)
    (hidle : w'.work.m_idleTime = w.work.m_idleTime)
    (hothers : ∀ j, j ≠ fd → Q w.ordinator j (w.work.view j) → Q w'.ordinator j (w.work.view j))
    (hQ : Q w'.ordinator fd (w'.work.view fd)) (honce : (w.work.times fd).Subsingleton) :
    Each Q w' := by
  have htimes : ∀ j time, time ∈ w'.work.times j → time ∈ w.work.times j := by
    intro j time htime
    rwa [mem_times, hidle] at htime
  exact h.but w' hview (fun j _ => htimes j) hothers
    (Or.inr ⟨hQ, honce.anti fun time => htimes fd time⟩)

/-- A client under a descriptor that the tables knew nothing about. -/
theorem Each.accepted (h : Each Q w) (w' : Worker) (now : Int) {fd : Int}
    (hsame : SameBut fd w.work w'.work) (hnone : ∀ time, time ∉ w.work.times fd)
    (hidle : ∀ j time, time ∈ w'.work.times j → time = now ∧ j = fd ∨ time ∈ w.work.times j)
    (hothers : ∀ j, j ≠ fd → Q w.ordinator j (w.work.view j) → Q w'.ordinator j (w.work.view j))
    (hQ : Q w'.ordinator fd (w'.work.view fd)) : Each Q w' := by
  refine h.but w' hsame (fun j hj time htime => ?_) hothers (Or.inr ⟨hQ, ?_⟩)
  · exact (hidle j time htime).resolve_left fun hnew => hj hnew.2
  · have honly : ∀ time ∈ w'.work.times fd, time = now := fun time htime =>
      (hidle fd time htime).elim And.left fun hold => absurd hold (hnone time)
    exact fun time htime time' htime' => (honly time htime).trans (honly time' htime').symm

theorem resetConnectionTime_each (h : Each Q w) (fd now : Int) :
    (w.work.resetConnectionTime fd now).Leaves True
      fun t => Each Q ⟨t, w.ordinator⟩ ∧ ∀ j, t.view j = w.work.view j := by
  unfold resetConnectionTime
  rcases eraseIdle_cases w.work fd with ⟨hundef, -⟩ | ⟨time, htime, hok⟩
  · rw [hundef]
    trivial
  · -- `emplace` may drop the new time when another client has it, but never stores a second one
    let t₁ : ThreadWork := { w.work with m_idleTime := w.work.m_idleTime.erase time }
    let t : ThreadWork := { t₁ with m_idleTime := t₁.m_idleTime.insertNew now fd }
    obtain ⟨hQ, honce⟩ := (h fd).client (Or.inr (Or.inr ⟨time, htime⟩))
    have hnone : ∀ τ, τ ∉ t₁.times fd := fun τ hτ =>
      (mem_times_erase.mp hτ).1 (honce (mem_times_erase.mp hτ).2 htime)
    have hother : ∀ j, j ≠ fd → ∀ τ, τ ∈ t.times j → τ ∈ w.work.times j := by
      intro j hj τ hτ
      rcases mem_times_of_insertNew hτ with ⟨-, rfl⟩ | hτ
      · exact absurd rfl hj
      · exact (mem_times_erase.mp hτ).2
    have hself : ∀ τ ∈ t.times fd, τ = now := fun τ hτ =>
      (mem_times_of_insertNew hτ).elim And.left fun hτ => absurd hτ (hnone τ)
    rw [hok]
    refine ⟨?_, fun _ => rfl⟩
    refine h.but ⟨t, w.ordinator⟩ (fun _ _ => rfl) hother (fun _ _ hv => hv) (Or.inr ⟨hQ, ?_⟩)
    exact fun τ hτ τ' hτ' => (hself τ hτ).trans (hself τ' hτ').symm

/-- What `disconnectClient` does to a client that the loop over `m_idleTime` stands on. -/
theorem disconnectClient_each (hseated : Q.Seated) {t : ThreadWork}
    {o : Ordinator ConnectionRef Frame} (h : Each Q ⟨t, o⟩) {fd since : Int}
    (hsince : since ∈ t.times fd)
    (spare : NewSocket) :
    t.disconnectClient fd spare = .undefined .eraseOfEnd ∨
      ∃ t', t.disconnectClient fd spare = .ok t' ∧ t'.m_idleTime = t.m_idleTime.erase since ∧
        t'.view fd = .absent ∧ SameBut fd t t' ∧ Each Q ⟨t', o⟩ := by
  obtain ⟨hQ, honce⟩ := (h fd).client (Or.inr (Or.inr ⟨since, hsince⟩))
  obtain ⟨el, hel, hsock⟩ := hseated o fd _ hQ
  rcases disconnectClient_cases (t := t) hel (Or.inl hsock) spare with
    ⟨hundef, -⟩ | ⟨t', time, htime, hok, hidle, habsent, hsame⟩
  · exact Or.inl hundef
  · exact Or.inr ⟨t', hok, honce hsince htime ▸ hidle, habsent, hsame,
      h.erased ⟨t', o⟩ (fun _ _ hv => hv) htime hidle habsent hsame⟩

theorem sweep_each (hseated : Q.Seated) {t : ThreadWork} {o : Ordinator ConnectionRef Frame}
    (h : Each Q ⟨t, o⟩) (server : BaseHTTPServer) (spare : NewSocket) (clock : Nat → Int) :
    (t.dropTimeoutedConnections server spare clock).Leaves True fun t' => Each Q ⟨t', o⟩ := by
  refine sweep_invariant (D := fun _ => True) (fun t since fd ht _ hsince => ?_) h rfl clock
    fun _ _ => trivial
  rcases disconnectClient_each hseated ht hsince spare with hundef | ⟨t', hok, hidle, -, -, ht'⟩
  · rw [hundef]
    trivial
  · rw [hok]
    exact ⟨hidle, ht'⟩

/-- No client has a descriptor that no socket of the worker has. -/
theorem Each.absent_of_unused (hseated : Q.Seated) (h : Each Q w) {fd : Int}
    (hunused : ∀ j el, w.work.m_connections.lookup j = some el → el.conn.m_socket.m_fd ≠ fd) :
    w.work.view fd = .absent ∧ ∀ time, time ∉ w.work.times fd := by
  refine (h fd).resolve_right ?_
  rintro ⟨hQ, -⟩
  obtain ⟨el, hel, hsock⟩ := hseated _ _ _ hQ
  exact hunused fd el hel hsock

end Each

/-! ## All that an event can come to -/

/-- What `Coroutine::resume` has led to in `handleConnection`: the client's element and the routine
table. -/
inductive Ran (w : Worker) (fd : Int) (el : Element) (id : Nat) (events : UInt32)
    (script : Script) :
    Element → Ordinator ConnectionRef Frame → Prop
  /-- It was refused. -/
  | refused (hfinished : ∀ r, w.ordinator.routine? id = some r → r.finished = true) :
      Ran w fd el id events script { el with conn := el.conn.setEvent events } w.ordinator
  /-- It has run a stretch of the client's own coroutine, and has not thrown. -/
  | resumed {r : Routine ConnectionRef Frame} (hr : w.ordinator.routine? id = some r)
      (hctx : r.ctx ≠ .ended) (hfunc : r.func = ⟨fd, el.uid⟩)
      (hthrew : ∀ e, (stretchOf el r events script).ended = .threw e →
        w.ordinator.boundIn r.ctx ≠ w.ordinator.storage) :
      Ran w fd el id events script { el with conn := (stretchOf el r events script).c }
        (w.ordinator.afterStretch id (w.ordinator.boundIn r.ctx)
          (stretchOf el r events script).ended.toEnded)

/-- All that `handleConnection` can come to for a client whose event resumes its own coroutine or
none. -/
inductive HandleOutcome (w : Worker) (fd : Int) (el : Element) (id : Nat) (events : UInt32)
    (script : Script) : Outcome Worker → Prop
  | undefined (why : UndefinedBehaviour) : HandleOutcome w fd el id events script (.undefined why)
  | disconnected {el₁ : Element} {o₁ : Ordinator ConnectionRef Frame} {t : ThreadWork} {time : Int}
      (hran : Ran w fd el id events script el₁ o₁) (hclosed : el₁.conn.m_opened = false)
      (htime : time ∈ w.work.times fd) (hidle : t.m_idleTime = w.work.m_idleTime.erase time)
      (hview : t.view fd = .absent) (hsame : SameBut fd w.work t) :
      HandleOutcome w fd el id events script (.ok ⟨t, o₁⟩)
  | created {el₁ : Element} {o₁ : Ordinator ConnectionRef Frame} {t : ThreadWork}
      (hran : Ran w fd el id events script el₁ o₁) (hopen : el₁.conn.m_opened = true)
      (hempty : el₁.conn.m_buffer = []) (hsock : el₁.conn.m_socket.m_fd = fd)
      (hidle : t.m_idleTime = w.work.m_idleTime)
      (hview : t.view fd = ⟨some { el₁ with conn := el₁.conn.clearEvents },
        some (o₁.create ⟨fd, el₁.uid⟩).1, true⟩)
      (hsame : SameBut fd w.work t) :
      HandleOutcome w fd el id events script (.ok ⟨t, (o₁.create ⟨fd, el₁.uid⟩).2⟩)
  | kept {el₁ : Element} {o₁ : Ordinator ConnectionRef Frame} {t : ThreadWork}
      (hran : Ran w fd el id events script el₁ o₁) (hopen : el₁.conn.m_opened = true)
      (hkept : el₁.conn.m_buffer ≠ []) (hsock : el₁.conn.m_socket.m_fd = fd)
      (hidle : t.m_idleTime = w.work.m_idleTime)
      (hview : t.view fd = ⟨some { el₁ with conn := el₁.conn.clearEvents }, some id, true⟩)
      (hsame : SameBut fd w.work t) :
      HandleOutcome w fd el id events script (.ok ⟨t, o₁⟩)
  /-- The exception of the coroutine has come back. -/
  | threw {r : Routine ConnectionRef Frame} {e : Exception} {t : ThreadWork}
      (hr : w.ordinator.routine? id = some r) (hctx : r.ctx ≠ .ended)
      (hfunc : r.func = ⟨fd, el.uid⟩)
      (hthrew : (stretchOf el r events script).ended = .threw e)
      (hbound : w.ordinator.boundIn r.ctx = w.ordinator.storage)
      (hsock : (stretchOf el r events script).c.m_socket.m_fd = fd)
      (hidle : t.m_idleTime = w.work.m_idleTime)
      (hview : t.view fd = ⟨some { el with conn := (stretchOf el r events script).c },
        some id, true⟩)
      (hsame : SameBut fd w.work t) :
      HandleOutcome w fd el id events script (.threw e
        ⟨t, w.ordinator.finish id w.ordinator.storage (some e)⟩)

section Ran

variable {w : Worker} {fd : Int} {el el₁ : Element} {id : Nat} {events : UInt32} {script : Script}
  {o₁ : Ordinator ConnectionRef Frame} (h : Ran w fd el id events script el₁ o₁)
include h

theorem Ran.consistent (ho : w.ordinator.Consistent) : o₁.Consistent := by
  cases h with
  | refused hfinished => exact ho
  | resumed hr hctx hfunc hthrew => exact ho.afterStretch hr hctx _ _

theorem Ran.uid : el₁.uid = el.uid := by
  cases h with
  | refused hfinished => rfl
  | resumed hr hctx hfunc hthrew => rfl

end Ran

section HandleOutcome

variable {w : Worker} {fd : Int} {el : Element} {id : Nat} {events : UInt32} {env : Env}

/-- The rest of `handleConnection`, after whatever `Coroutine::resume` has led to. -/
theorem outcome_afterResume {el₁ : Element} (t₁ : ThreadWork) {o₁ : Ordinator ConnectionRef Frame}
    {reg : Bool} (hran : Ran w fd el id events env.script el₁ o₁)
    (hview : t₁.view fd = ⟨some el₁, some id, reg⟩) (hsock : SocketOf el₁.conn fd)
    (hreg : el₁.conn.m_opened = true → reg = true) (hsame : SameBut fd w.work t₁)
    (hidle : t₁.m_idleTime = w.work.m_idleTime) :
    HandleOutcome w fd el id events env.script (afterResume ⟨t₁, o₁⟩ fd env.spare) := by
  have hcases := afterResume_cases (w := ⟨t₁, o₁⟩) hview hsock env.spare
  generalize afterResume ⟨t₁, o₁⟩ fd env.spare = res at hcases
  cases hcases with
  | eraseOfEnd hclosed hnone => exact .undefined _
  | @disconnected t time hclosed htime hidle' hview' hsame' =>
      have htime' : time ∈ w.work.times fd := by rwa [mem_times, hidle] at htime
      exact .disconnected hran hclosed htime' (hidle ▸ hidle') hview' (hsame.trans hsame')
  | @created t hopen hempty hidle' hview' hsame' =>
      exact .created hran hopen hempty (hsock.opened hopen) (hidle'.trans hidle)
        (hreg hopen ▸ hview') (hsame.trans hsame')
  | @kept t hopen hkept hidle' hview' hsame' =>
      exact .kept hran hopen hkept (hsock.opened hopen) (hidle'.trans hidle) (hreg hopen ▸ hview')
        (hsame.trans hsame')

/-- A coroutine whose end did not reach the table cannot be resumed. -/
theorem handleConnection_ended {reg : Bool} {r : Routine ConnectionRef Frame}
    (h : w.work.view fd = ⟨some el, some id, reg⟩) (hr : w.ordinator.routine? id = some r)
    (hfinished : r.finished = false) (hctx : r.ctx = .ended) :
    w.handleConnection fd events env = .undefined .endedContext := by
  rw [handleConnection_of_view h]
  simp [Ordinator.resume, hr, hfinished, hctx, Ordinator.enter, Worker.resumed]

/-- A coroutine that was made for an earlier element of the same descriptor
has lost its connection. -/
theorem handleConnection_dangling {reg : Bool} {r : Routine ConnectionRef Frame}
    (ho : w.ordinator.Consistent) (h : w.work.view fd = ⟨some el, some id, reg⟩)
    (hr : w.ordinator.routine? id = some r) (hctx : r.ctx ≠ .ended) (hfd : r.func.fd = fd)
    (huid : r.func.uid ≠ el.uid) :
    w.handleConnection fd events env = .undefined .danglingReference := by
  have hlookup : (w.atResume fd el events).m_connections.lookup fd =
      some { el with conn := el.conn.setEvent events } := lookup_update _ _ _ _
  have hrun : runCallback env.script r.func r.ctx.frame? (w.atResume fd el events) =
      .error .danglingReference := by
    simp only [runCallback, hfd, hlookup, if_neg (Ne.symm huid)]
  rw [handleConnection_of_view h, Ordinator.resume_of_unfinished ho hr hctx, hrun]
  rfl

variable (events env) in
theorem handleConnection_outcome (ho : w.ordinator.Consistent)
    (h : w.work.view fd = ⟨some el, some id, true⟩) (hsock : el.conn.m_socket.m_fd = fd)
    (hown : ∀ r, w.ordinator.routine? id = some r → r.finished = true ∨ r.func.fd = fd) :
    HandleOutcome w fd el id events env.script (w.handleConnection fd events env) := by
  by_cases hfinished : ∀ r, w.ordinator.routine? id = some r → r.finished = true
  · rw [handleConnection_finished h hfinished]
    obtain ⟨hview, hsame⟩ := view_atResume h hsock events
    exact outcome_afterResume _ (.refused hfinished) hview (socketOf_setEvent hsock events)
      (fun _ => rfl) hsame rfl
  push Not at hfinished
  obtain ⟨r, hr, hunfinished⟩ := hfinished
  have hfd := (hown r hr).resolve_left hunfinished
  by_cases hctx : r.ctx = .ended
  · rw [handleConnection_ended h hr (Bool.eq_false_iff.mpr hunfinished) hctx]
    exact .undefined _
  by_cases huid : r.func.uid = el.uid
  swap
  · rw [handleConnection_dangling ho h hr hctx hfd huid]
    exact .undefined _
  have hfunc : r.func = ⟨fd, el.uid⟩ := by rw [← hfd, ← huid]
  obtain ⟨hsocket, hsame, hidle, reg, hview, hkept⟩ := view_afterStretch h hsock r events env.script
  rcases handleConnection_own ho h hr hctx hfunc events env with
    ⟨hrest, hthrew⟩ | ⟨e, hthrew, hbound, hres⟩
  · rw [hrest]
    exact outcome_afterResume _ (.resumed hr hctx hfunc hthrew) hview hsocket
      (fun hopen => (hkept (Or.inl hopen)).1) hsame hidle
  · obtain ⟨rfl, hsock'⟩ :=
      hkept (Or.inr fun hreturned => by rw [hreturned] at hthrew; cases hthrew)
    rw [hres, hthrew]
    show HandleOutcome w fd el id events env.script (.threw e ⟨_, w.ordinator.finish id _ (some e)⟩)
    rw [hbound]
    exact .threw hr hctx hfunc hthrew hbound hsock' hidle hview hsame

end HandleOutcome

/-! ## All that accepting can come to -/

/-- All that `accept` can come to when the tables know nothing about the descriptor. -/
inductive AcceptOutcome (w : Worker) (env : Env) : Outcome Worker → Prop
  /-- `accept4` has returned no descriptor. -/
  | refused : AcceptOutcome w env (.ok w)
  | fresh {t : ThreadWork} (hfd : 0 ≤ env.accepted.fd) (hadded : env.added = true)
      (habsent : w.work.view env.accepted.fd = .absent)
      (hnone : ∀ time, time ∉ w.work.times env.accepted.fd)
      (hview : t.view env.accepted.fd = ⟨some (w.newElement env.accepted),
        some (w.ordinator.create ⟨env.accepted.fd, (w.newElement env.accepted).uid⟩).1, true⟩)
      (hsame : SameBut env.accepted.fd w.work t)
      (hidle : ∀ j time, time ∈ t.times j →
        time = env.now ∧ j = env.accepted.fd ∨ time ∈ w.work.times j) :
      AcceptOutcome w env
        (.ok ⟨t, (w.ordinator.create ⟨env.accepted.fd, (w.newElement env.accepted).uid⟩).2⟩)
  /-- Its descriptor could not be registered. -/
  | unregistered {t : ThreadWork} {e : Exception} (hfd : 0 ≤ env.accepted.fd)
      (hadded : env.added = false) (habsent : w.work.view env.accepted.fd = .absent)
      (hnone : ∀ time, time ∉ w.work.times env.accepted.fd)
      (hview : t.view env.accepted.fd = ⟨some (w.newElement env.accepted), none, false⟩)
      (hsame : SameBut env.accepted.fd w.work t)
      (hidle : ∀ j time, time ∈ t.times j →
        time = env.now ∧ j = env.accepted.fd ∨ time ∈ w.work.times j) :
      AcceptOutcome w env (.threw e ⟨t, w.ordinator⟩)

theorem accept_outcome {Q : ClientProperty} {w : Worker} (hseated : Q.Seated) (h : Each Q w)
    {env : Env} (hunused : 0 ≤ env.accepted.fd → ∀ fd el, w.work.m_connections.lookup fd = some el →
      el.conn.m_socket.m_fd ≠ env.accepted.fd) : AcceptOutcome w env (w.accept env) := by
  by_cases hfd : 0 ≤ env.accepted.fd
  swap
  · rw [accept_refused (not_le.mp hfd)]
    exact .refused
  obtain ⟨habsent, hnone⟩ := h.absent_of_unused hseated (hunused hfd)
  cases hadded : env.added with
  | true =>
      obtain ⟨t, hok, hview, hsame, hidle⟩ := accept_fresh hfd habsent hadded
      rw [hok]
      refine .fresh hfd hadded habsent hnone hview hsame fun j time htime => ?_
      rw [mem_times, hidle] at htime
      exact mem_times_of_insertNew htime
  | false =>
      obtain ⟨t, hthrew, hview, hsame, hidle⟩ := accept_unregistered hfd habsent hadded
      rw [hthrew]
      refine .unregistered hfd hadded habsent hnone hview hsame fun j time htime => Or.inr ?_
      rwa [mem_times, hidle] at htime

end HTTP
end AdvCppHW
