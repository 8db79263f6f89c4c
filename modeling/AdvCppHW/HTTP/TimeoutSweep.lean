import AdvCppHW.HTTP.ClientView

/-!
# Which clients a sweep drops

`dropTimeoutedConnections` goes through `m_idleTime` from the oldest time on and stops at the
first client that has not been idle for too long.  It can stop there because the times
ascend: all behind are younger.

* `IdlePerClient` — each client has one idle time; `disconnectClient_client` — what
  `disconnectClient` does to such tables.
* `Dropped` — some clients are gone and nothing else is; `sweep_exact` — the loop.
* `dropTimeoutedConnections_exact` — which clients go and which stay.
-/

namespace AdvCppHW
namespace HTTP

open Support ThreadWork

/-- Each connection has one entry in `m_idleTime`, and there are no other entries. -/
def IdlePerClient (t : ThreadWork) : Prop :=
  ∀ fd, (fd ∈ t.m_connections ↔ ∃ time, time ∈ t.times fd) ∧
    ∀ time time', time ∈ t.times fd → time' ∈ t.times fd → time = time'

/-! ## One client -/

/-- `disconnectClient` has taken the client out that was idle since this time. -/
structure Disconnected (since fd : Int) (t t' : ThreadWork) : Prop where
  connections : ∀ j, t'.m_connections.lookup j = if j = fd then none else t.m_connections.lookup j
  coroutines : t'.m_coroutines = t.m_coroutines.erase fd
  idle : t'.m_idleTime = t.m_idleTime.erase since
  registered : t'.registered ⊆ t.registered.erase fd

theorem Disconnected.mem_times {since fd : Int} {t t' : ThreadWork} (h : Disconnected since fd t t')
    {j time : Int} : time ∈ t'.times j ↔ time ≠ since ∧ time ∈ t.times j := by
  show t'.m_idleTime.lookup time = some j ↔ _
  rw [h.idle]
  exact OrdMap.lookup_erase_eq_some

/-- Each of the clients that are left still has one idle time. -/
theorem Disconnected.idlePerClient {since fd : Int} {t t' : ThreadWork}
    (h : Disconnected since fd t t') (ht : IdlePerClient t)
    (hsince : since ∈ t.times fd) : IdlePerClient t' := by
  intro j
  obtain ⟨hclient, hone⟩ := ht j
  have hmem : j ∈ t'.m_connections ↔ j ≠ fd ∧ j ∈ t.m_connections := by
    rw [OrdMap.mem_iff, OrdMap.mem_iff]
    simp only [h.connections]
    by_cases hj : j = fd
    · simp [hj]
    · simp [hj]
  constructor
  · rw [hmem, hclient]
    constructor
    · rintro ⟨hj, time, htime⟩
      refine ⟨time, h.mem_times.mpr ⟨?_, htime⟩⟩
      rintro rfl
      exact hj (Option.some.inj (htime.symm.trans hsince))
    · rintro ⟨time, htime⟩
      obtain ⟨hne, htime⟩ := h.mem_times.mp htime
      refine ⟨?_, time, htime⟩
      rintro rfl
      exact hne (hone time since htime hsince)
  · intro time time' htime htime'
    exact hone time time' (h.mem_times.mp htime).2 (h.mem_times.mp htime').2

theorem registered_withoutClient_subset (t : ThreadWork) (fd : Int) (el : Element) :
    (t.withoutClient fd el).registered ⊆ t.registered.erase fd := by
  have hlookup := lookup_update (t.removeFromEpoll fd) fd el el.conn.close
  have hupdate : ((t.removeFromEpoll fd).update fd el el.conn.close).registered ⊆
      t.registered.erase fd := by
    unfold update
    dsimp only
    split
    · exact Finset.Subset.refl _
    · exact Finset.erase_subset _ _
  show (((t.removeFromEpoll fd).update fd el el.conn.close).eraseConnection fd).registered ⊆ _
  rw [eraseConnection, hlookup]
  dsimp only
  split
  · exact (Finset.erase_subset _ _).trans hupdate
  · exact hupdate

/-- With one idle time for each client, `find_if` finds the one that the loop stands on. -/
theorem disconnectClient_client {t : ThreadWork} (h : IdlePerClient t) {since fd : Int}
    (hsince : since ∈ t.times fd) (spare : NewSocket) :
    ∃ t', t.disconnectClient fd spare = .ok t' ∧ Disconnected since fd t t' := by
  obtain ⟨el, hlookup⟩ := OrdMap.mem_iff.mp ((h fd).1.mpr ⟨since, hsince⟩)
  have hidle := idle_withoutClient t fd el
  rw [disconnectClient_of_lookup hlookup]
  rcases eraseIdle_cases (t.withoutClient fd el) fd with ⟨-, hnone⟩ | ⟨time, htime, hok⟩
  · refine absurd ?_ (hnone since)
    rwa [ThreadWork.mem_times, hidle]
  · rw [ThreadWork.mem_times, hidle] at htime
    have heq : time = since := (h fd).2 time since htime hsince
    subst heq
    refine ⟨_, hok, ?_⟩
    constructor
    · exact connections_withoutClient t fd el
    · rfl
    · exact congrArg (·.erase time) hidle
    · exact registered_withoutClient_subset t fd el

/-! ## The loop -/

/-- The first clients of `m_idleTime` are gone, and everything about the others is unchanged. -/
structure Dropped (clients : List (Int × Int)) (t t' : ThreadWork) : Prop where
  gone : ∀ i ∈ clients, t'.m_connections.lookup i.2 = none ∧ t'.m_coroutines.lookup i.2 = none ∧
    i.2 ∉ t'.registered
  kept : ∀ fd, fd ∉ clients.map Prod.snd →
    t'.m_connections.lookup fd = t.m_connections.lookup fd ∧
      t'.m_coroutines.lookup fd = t.m_coroutines.lookup fd
  idle : t.m_idleTime.entries = clients ++ t'.m_idleTime.entries
  registered : t'.registered ⊆ t.registered

theorem Dropped.none (t : ThreadWork) : Dropped [] t t :=
  ⟨by simp, fun _ _ => ⟨rfl, rfl⟩, rfl, Finset.Subset.refl _⟩

/-- One more client has been dropped before the others. -/
theorem Dropped.cons {since fd : Int} {clients : List (Int × Int)} {t t₁ t' : ThreadWork}
    (hfirst : Disconnected since fd t t₁) {rest : List (Int × Int)}
    (hentries : t.m_idleTime.entries = (since, fd) :: rest) (h : Dropped clients t₁ t') :
    Dropped ((since, fd) :: clients) t t' := by
  have hco : ∀ j, t₁.m_coroutines.lookup j = if j = fd then Option.none
      else t.m_coroutines.lookup j := by
    intro j
    rw [hfirst.coroutines]
    split
    · next hj => rw [hj, OrdMap.lookup_erase_self]
    · next hj => rw [OrdMap.lookup_erase_ne _ hj]
  have hrest : t₁.m_idleTime.entries = rest := by
    rw [hfirst.idle, OrdMap.entries_erase_head hentries]
  constructor
  · intro i hi
    by_cases hmem : i.2 ∈ clients.map Prod.snd
    · obtain ⟨i', hi', heq⟩ := List.mem_map.mp hmem
      exact heq ▸ h.gone i' hi'
    · -- it is the first one, and nothing has brought it back
      have hfd : i.2 = fd := by
        rcases List.mem_cons.mp hi with rfl | hi
        · rfl
        · exact absurd (List.mem_map_of_mem hi) hmem
      obtain ⟨hconn, hroutine⟩ := h.kept i.2 hmem
      rw [hconn, hroutine, hfirst.connections, hco, hfd, if_pos rfl, if_pos rfl]
      exact ⟨rfl, rfl, fun hreg => Finset.notMem_erase _ _ (hfirst.registered (h.registered hreg))⟩
  · intro j hj
    rw [List.map_cons, List.mem_cons, not_or] at hj
    obtain ⟨hconn, hroutine⟩ := h.kept j hj.2
    rw [hconn, hroutine, hfirst.connections, hco, if_neg hj.1, if_neg hj.1]
    exact ⟨rfl, rfl⟩
  · rw [hentries, List.cons_append, ← h.idle, hrest]
  · exact h.registered.trans (hfirst.registered.trans (Finset.erase_subset _ _))

/-- A younger client has not been idle for longer. -/
theorem timeDiff_le {since since' : Int} (h : since ≤ since') (now : Int) :
    timeDiff now since' ≤ timeDiff now since := by
  apply Int.tdiv_le_tdiv
  · decide
  · omega

/-- The loop from an iterator on, whose readings of the clock are numbered from there. -/
theorem sweep_exact {server : BaseHTTPServer} (spare : NewSocket) {entries : List (Int × Int)}
    {t : ThreadWork} (ht : IdlePerClient t) (hentries : t.m_idleTime.entries = entries)
    (clock : Nat → Int) :
    ∃ t' clients, sweep server spare clock entries t = .ok t' ∧ Dropped clients t t' ∧
      IdlePerClient t' ∧
      (∀ n i, clients[n]? = some i → timeDiff (clock n) i.1 > server.m_timeout) ∧
      ∀ i ∈ t'.m_idleTime.entries, timeDiff (clock clients.length) i.1 ≤ server.m_timeout := by
  induction entries generalizing t clock with
  | nil =>
      refine ⟨t, [], rfl, .none t, ht, by simp, ?_⟩
      rw [hentries]
      simp
  | cons entry rest ih =>
      obtain ⟨since, fd⟩ := entry
      have hsince : since ∈ t.times fd :=
        OrdMap.lookup_eq_some_iff.mpr (hentries ▸ List.mem_cons_self)
      rw [sweep, if_neg (not_not_intro (OrdMap.mem_of_lookup hsince))]
      by_cases hlate : timeDiff (clock 0) since > server.m_timeout
      · -- the loop goes on with the next reading of the clock
        obtain ⟨t₁, hok, hfirst⟩ := disconnectClient_client ht hsince spare
        have hrest : t₁.m_idleTime.entries = rest := by
          rw [hfirst.idle, OrdMap.entries_erase_head hentries]
        obtain ⟨t', clients, hswept, hdropped, ht', hvisited, hleft⟩ :=
          ih (hfirst.idlePerClient ht hsince) hrest fun n => clock (n + 1)
        rw [if_pos hlate, hok, Outcome.andThen_ok]
        refine ⟨t', (since, fd) :: clients, hswept, hdropped.cons hfirst hentries, ht', ?_, hleft⟩
        intro n i hi
        cases n with
        | zero =>
            cases hi
            exact hlate
        | succ n => exact hvisited n i hi
      · -- the elements in front of the iterator are gone already
        have hsame : (⟨t.m_idleTime.entries.filter fun i => decide (since ≤ i.1),
            t.m_idleTime.sorted.filter _⟩ : OrdMap Int Int) = t.m_idleTime :=
          OrdMap.ext (OrdMap.filter_le_head hentries)
        rw [if_neg hlate, hsame]
        refine ⟨t, [], rfl, .none t, ht, by simp, ?_⟩
        intro i hi
        have holdest : since ≤ i.1 := by
          rw [hentries] at hi
          rcases List.mem_cons.mp hi with rfl | hi
          · exact le_rfl
          · exact ((List.pairwise_cons.mp (hentries ▸ t.m_idleTime.sorted)).1 i hi).le
        exact (timeDiff_le holdest _).trans (Int.not_lt.mp hlate)

/-- **The sweep is exact.**  With one idle time for each client, `dropTimeoutedConnections`
takes out the clients that come first in `m_idleTime`, each of which has been idle for
longer than `m_timeout` when it is looked at.  It stops at the first that has not.  All
others are kept as they were, and at the last reading of the clock none of them has been
idle for longer than `m_timeout`. -/
theorem dropTimeoutedConnections_exact {t : ThreadWork} (ht : IdlePerClient t)
    (server : BaseHTTPServer) (spare : NewSocket) (clock : Nat → Int) :
    ∃ t' clients, t.dropTimeoutedConnections server spare clock = .ok t' ∧ Dropped clients t t' ∧
      IdlePerClient t' ∧ (∀ n i, clients[n]? = some i → timeDiff (clock n) i.1 > server.m_timeout) ∧
      ∀ i ∈ t'.m_idleTime.entries, timeDiff (clock clients.length) i.1 ≤ server.m_timeout :=
  sweep_exact spare ht rfl clock

/-- Two clients, the second of which was last active fifty seconds after the first. -/
def twoIdle : ThreadWork where
  m_connections := OrdMap.empty.assignAll [(5, ⟨0, .ofFD 5 0⟩), (6, ⟨1, .ofFD 6 0⟩)]
  m_coroutines := OrdMap.empty.assignAll [(5, 1), (6, 2)]
  m_idleTime := OrdMap.empty.assignAll [(0, 5), (50 * 10 ^ 9, 6)]
  registered := {5, 6}
  constructed := 2

theorem idlePerClient_twoIdle : IdlePerClient twoIdle := by
  have hidle : ∀ time fd, time ∈ twoIdle.times fd ↔ time = 0 ∧ fd = 5 ∨ time = 50 * 10 ^ 9 ∧
      fd = 6 := by
    intro time fd
    have hentries : twoIdle.m_idleTime.entries = [(0, 5), (50 * 10 ^ 9, 6)] := by decide
    rw [ThreadWork.mem_times, OrdMap.lookup_eq_some_iff, hentries]
    simp
  have hconn : ∀ fd, fd ∈ twoIdle.m_connections ↔ fd = 5 ∨ fd = 6 := by
    intro fd
    have hentries : twoIdle.m_connections.entries =
        [(5, ⟨0, .ofFD 5 0⟩), (6, ⟨1, .ofFD 6 0⟩)] := by decide
    simp only [OrdMap.mem_iff, OrdMap.lookup_eq_some_iff, hentries]
    simp [exists_or]
  intro fd
  constructor
  · rw [hconn]
    simp only [hidle]
    constructor
    · rintro (rfl | rfl)
      · exact ⟨0, Or.inl ⟨rfl, rfl⟩⟩
      · exact ⟨50 * 10 ^ 9, Or.inr ⟨rfl, rfl⟩⟩
    · rintro ⟨time, ⟨-, rfl⟩ | ⟨-, rfl⟩⟩
      · exact Or.inl rfl
      · exact Or.inr rfl
  · intro time time' htime htime'
    rw [hidle] at htime htime'
    omega

/-- After a minute, with a timeout of thirty seconds, the first of two clients is dropped. -/
theorem dropTimeoutedConnections_exact_two :
    ∃ t' clients, twoIdle.dropTimeoutedConnections ⟨⟨3⟩, 30⟩ {} (fun _ => 60 * 10 ^ 9) = .ok t' ∧
      Dropped clients twoIdle t' ∧ IdlePerClient t' ∧
      (∀ (n : Nat) (i : Int × Int), clients[n]? = some i → timeDiff (60 * 10 ^ 9) i.1 > 30) ∧
      ∀ i ∈ t'.m_idleTime.entries, timeDiff (60 * 10 ^ 9) i.1 ≤ 30 :=
  dropTimeoutedConnections_exact idlePerClient_twoIdle ⟨⟨3⟩, 30⟩ {} fun _ => 60 * 10 ^ 9

end HTTP
end AdvCppHW
