import AdvCppHW.Support.Ownership
import AdvCppHW.Support.Transition
import AdvCppHW.TCP.Descriptors

/-!
# Who owns the descriptors

The calls of `TCP/Descriptors` in any order, among whatever other parts of the program open
and close.  `Connection(fd)` takes a descriptor over from the part that has it; that part
does not close it any more.

* `Effect` — what a member does to the descriptor of its object; `open_effect`
  and the like — each of them.
* `World.Owned` — each descriptor has one owner, and was closed as often as it was obtained.
* `step_owned_iff` — which steps keep that; `descriptors_owned` — the runs, and
  what is open at their end.
-/

namespace AdvCppHW
namespace TCP
namespace Descriptors

open Support

/-! ## Owners -/

/-- The descriptor that an object holds. -/
def World.hold (w : World) (i : Nat) : Option Int := (w.objects i).bind fun o => o.m_socket.held

structure World.Owned (w : World) : Prop where
  nonneg : ∀ fd ∈ w.files.opened, 0 ≤ fd
  others : w.files.others ⊆ w.files.opened
  owned : Ownership.Owned w.hold (w.files.opened \ w.files.others) w.files.made w.files.closed

/-- What a member does to the descriptor of its object. -/
inductive Effect (f : Files) : Option Int → Option Int → Files → Prop
  | same (held : Option Int) : Effect f held held f
  | made {fd : Int} (hfree : f.Free fd) : Effect f none (some fd) (f.make fd)
  | released (fd : Int) : Effect f (some fd) none (f.release fd)

theorem World.hold_put_self (w : World) (i : Nat) (o : Option Object) (f : Files) :
    (w.put i o f).hold i = o.bind fun o => o.m_socket.held := by
  show (Function.update w.objects i o i).bind _ = _
  rw [Function.update_self]

theorem World.hold_put_ne (w : World) {i j : Nat} (h : j ≠ i) (o : Option Object) (f : Files) :
    (w.put i o f).hold j = w.hold j := by
  show (Function.update w.objects i o j).bind _ = _
  rw [Function.update_of_ne h]
  rfl

/-- Members that keep to these effects keep the descriptors owned. -/
theorem World.Owned.put {w : World} (h : w.Owned) (i : Nat) {o : Option Object} {f : Files}
    (heffect : Effect w.files (w.hold i) (o.bind fun o => o.m_socket.held) f) :
    (w.put i o f).Owned := by
  have hothers : ∀ j, j ≠ i → (w.put i o f).hold j = w.hold j := fun j hj => w.hold_put_ne hj o f
  have hself := w.hold_put_self i o f
  generalize hheld : w.hold i = held at heffect
  generalize hafter : (o.bind fun o => o.m_socket.held) = after at heffect hself
  cases heffect with
  | same =>
      refine ⟨h.nonneg, h.others, h.owned.congr fun j => ?_⟩
      by_cases hj : j = i
      · rw [hj, hself, hheld]
      · exact hothers j hj
  | @made fd hfree =>
      have hnot : fd ∉ w.files.others := fun hmem => hfree.2 (h.others hmem)
      constructor
      · intro fd' hfd'
        rcases Finset.mem_insert.mp hfd' with rfl | hmem
        · exact hfree.1
        · exact h.nonneg fd' hmem
      · exact h.others.trans (Finset.subset_insert fd w.files.opened)
      · show Ownership.Owned _ (insert fd w.files.opened \ w.files.others) (fd :: w.files.made)
          w.files.closed
        rw [Finset.insert_sdiff_of_notMem _ hnot]
        refine h.owned.acquire hheld (fun hmem => hfree.2 (Finset.mem_sdiff.mp hmem).1) hself
          hothers
  | released fd =>
      have hlive := Finset.mem_sdiff.mp (h.owned.live_of_held i fd hheld)
      constructor
      · exact fun fd' hfd' => h.nonneg fd' (Finset.mem_of_mem_erase hfd')
      · intro fd' hfd'
        refine Finset.mem_erase.mpr ⟨?_, h.others hfd'⟩
        rintro rfl
        exact hlive.2 hfd'
      · show Ownership.Owned _ (w.files.opened.erase fd \ w.files.others) w.files.made
          (fd :: w.files.closed)
        rw [Finset.erase_sdiff_comm]
        exact h.owned.release hheld hself hothers

/-! ### The members -/

theorem Socket.held_of_isOpened {s : Socket} (h : s.isOpened = true) : s.held = some s.m_fd :=
  if_pos h

theorem Socket.held_of_not_isOpened {s : Socket} (h : s.isOpened = false) : s.held = none := by
  rw [held, h]
  rfl

theorem Socket.held_of_free {f : Files} {fd : Int} (h : f.Free fd) :
    (⟨fd⟩ : Socket).held = some fd := by
  have hne : fd ≠ -1 := by
    have hnonneg := h.1
    omega
  exact held_of_isOpened (decide_eq_true hne)

section Members

variable {f : Files} {result : Option Int}

theorem construct_effect (hgrants : f.Grants result) :
    Effect f none ((Socket.construct f result).1.toOption.bind Socket.held)
      (Socket.construct f result).2 := by
  cases result with
  | none => exact .same none
  | some fd =>
      have hfree := hgrants fd rfl
      show Effect f none (⟨fd⟩ : Socket).held (f.make fd)
      rw [Socket.held_of_free hfree]
      exact .made hfree

theorem open_effect (s : Socket) (hgrants : f.Grants result) :
    (s.open f result).Leaves False fun x => Effect f s.held x.1.held x.2 := by
  unfold Socket.open
  cases hopened : s.isOpened with
  | true => exact .same s.held
  | false =>
      cases result with
      | none => exact .same s.held
      | some fd =>
          have hfree := hgrants fd rfl
          show Effect f s.held (⟨fd⟩ : Socket).held (f.make fd)
          rw [Socket.held_of_free hfree, Socket.held_of_not_isOpened hopened]
          exact .made hfree

/-- `bind` leaves the socket and the descriptors as they are. -/
theorem bind_leaves (s : Socket) (parsed bound : Bool) :
    (s.bind f parsed bound).Leaves False fun x => x = (s, f) := by
  unfold Socket.bind
  split
  · rfl
  · split
    · rfl
    · split
      · rfl
      · rfl

theorem connect_effect (c : Connection) (ip : String) (port : UInt16) (hgrants : f.Grants result)
    (parsed connected : Bool) :
    (c.connect f ip port result parsed connected).Leaves False fun x =>
      Effect f c.m_socket.held x.1.m_socket.held x.2 := by
  unfold Connection.connect
  split
  · exact .same _
  · have hopen : ((c.m_socket.open f result).map
        fun x => ((⟨x.1, c.m_opened⟩ : Connection), x.2)).Leaves False
          fun x => Effect f c.m_socket.held x.1.m_socket.held x.2 :=
      (open_effect c.m_socket hgrants).map fun _ h => h
    refine hopen.andThen (fun x hx => ?_) fun _ h => h
    dsimp only
    split
    · exact hx
    · split
      · exact hx
      · exact hx

theorem server_open_effect (s : Server) (hgrants : f.Grants result) (parsed bound : Bool) :
    (s.open f result parsed bound).Leaves False fun x =>
      Effect f s.m_socket.held x.1.m_socket.held x.2 := by
  have hopen := open_effect s.m_socket hgrants
  refine (hopen.andThen (fun x hx => ?_) fun _ h => h).map fun _ h => h
  refine (bind_leaves x.1 parsed bound).mono fun y hy => ?_
  subst hy
  exact hx

theorem accept_effect (s : Server) (hgrants : f.Grants result) :
    (s.accept f result).Leaves False fun x =>
      Effect f none (x.1.bind fun c => c.m_socket.held) x.2 := by
  unfold Server.accept
  split
  · exact .same none
  · cases result with
    | none => exact .same none
    | some fd =>
        have hfree := hgrants fd rfl
        show Effect f none (⟨fd⟩ : Socket).held (f.make fd)
        rw [Socket.held_of_free hfree]
        exact .made hfree

end Members

/-! ## Steps -/

/-- The steps that keep the descriptors owned: a `close` must not fail behind a `::close` that has
closed the descriptor, and a destructor must not leave it open. -/
def World.Harmless (w : World) : Act → Prop
  | .close i calls => ∀ o, w.objects i = some o → o.closes = true → ¬ Stale calls
  | .destroy i calls => ∀ o, w.objects i = some o → o.m_socket.isOpened = true → ¬ Kept calls
  | _ => True

theorem hold_of_object {w : World} {i : Nat} {o : Object} (h : w.objects i = some o) :
    w.hold i = o.m_socket.held := by
  rw [World.hold, h]
  rfl

theorem hold_of_none {w : World} {i : Nat} (h : ¬ (w.objects i).isSome) : w.hold i = none := by
  rw [World.hold, Option.not_isSome_iff_eq_none.mp h]
  rfl

theorem World.Owned.behind {w w' : World} (h : w.Owned) {i : Nat} {σ : Type} {object : σ → Object}
    {x : Outcome (σ × Files)}
    (hx : x.Leaves False fun y => Effect w.files (w.hold i) (object y.1).m_socket.held y.2)
    (hbehind : w.behind i object x = some w') : w'.Owned := by
  cases x with
  | ok y =>
      cases hbehind
      exact h.put i hx
  | threw e y =>
      cases hbehind
      exact h.put i hx
  | undefined why => cases hbehind

/-- A new object, if its constructor has not thrown. -/
theorem World.Owned.construct {w : World} (h : w.Owned) {i : Nat} {socket : Option Int}
    {object : Socket → Object} (hobject : ∀ s, (object s).m_socket = s)
    (hcan : ¬ ((w.objects i).isSome ∨ ¬ w.files.Grants socket)) :
    (w.put i ((Socket.construct w.files socket).1.toOption.map object)
      (Socket.construct w.files socket).2).Owned := by
  rw [not_or, not_not] at hcan
  refine h.put i ?_
  rw [hold_of_none hcan.1, Option.bind_map]
  have hheld : (fun o => Socket.held (Object.m_socket o)) ∘ object = Socket.held := by
    funext s
    exact congrArg Socket.held (hobject s)
  rw [hheld]
  exact construct_effect hcan.2

theorem World.Owned.adopt {w : World} (h : w.Owned) {i : Nat} {fd : Int} (hi : w.hold i = none)
    (hfd : fd ∈ w.files.others) :
    (w.put i (some (.connection ⟨⟨fd⟩, true⟩)) (w.files.adopt fd)).Owned := by
  have hopened := h.others hfd
  have hheld : (⟨fd⟩ : Socket).held = some fd := by
    have hnonneg := h.nonneg fd hopened
    have hne : fd ≠ -1 := by omega
    exact Socket.held_of_isOpened (decide_eq_true hne)
  refine ⟨h.nonneg, (Finset.erase_subset fd _).trans h.others, ?_⟩
  show Ownership.Owned _ (w.files.opened \ w.files.others.erase fd)
    (fd :: w.files.made) w.files.closed
  rw [Finset.sdiff_erase hopened]
  refine h.owned.acquire hi (fun hmem => (Finset.mem_sdiff.mp hmem).2 hfd) ?_
    fun j hj => w.hold_put_ne hj _ _
  rw [w.hold_put_self]
  exact hheld

theorem World.Owned.move {w : World} (h : w.Owned) {i j : Nat} {o : Object}
    (hi : w.objects i = some o) (hj : ¬ (w.objects j).isSome) :
    ((w.put j (some o) w.files).put i (some o.moved) w.files).Owned := by
  have hij : i ≠ j := by
    rintro rfl
    exact hj (hi ▸ rfl)
  refine ⟨h.nonneg, h.others, h.owned.transfer hij (hold_of_none hj) ?_ ?_ fun k hki hkj => ?_⟩
  · rw [World.hold_put_ne _ hij.symm, World.hold_put_self, hold_of_object hi]
    rfl
  · rw [World.hold_put_self]
    cases o with
    | connection c => rfl
    | server s => rfl
  · rw [World.hold_put_ne _ hki, World.hold_put_ne _ hkj]

theorem World.Owned.otherOpens {w : World} (h : w.Owned) {fd : Int} (hfree : w.files.Free fd) :
    World.Owned { w with
      files := { w.files with
        opened := insert fd w.files.opened, others := insert fd w.files.others } } := by
  refine ⟨?_, Finset.insert_subset_insert fd h.others, ?_⟩
  · intro fd' hfd'
    rcases Finset.mem_insert.mp hfd' with rfl | hmem
    · exact hfree.1
    · exact h.nonneg fd' hmem
  · have hsame : insert fd w.files.opened \ insert fd w.files.others =
        w.files.opened \ w.files.others := by
      rw [Finset.insert_sdiff_insert, Finset.sdiff_insert, Finset.erase_eq_of_notMem]
      exact fun hmem => hfree.2 (Finset.mem_sdiff.mp hmem).1
    show Ownership.Owned w.hold _ w.files.made w.files.closed
    rw [hsame]
    exact h.owned

theorem World.Owned.otherCloses {w : World} (h : w.Owned) {fd : Int} (hfd : fd ∈ w.files.others) :
    World.Owned { w with
      files := { w.files with
        opened := w.files.opened.erase fd, others := w.files.others.erase fd } } := by
  refine ⟨fun fd' hfd' => h.nonneg fd' (Finset.mem_of_mem_erase hfd'),
    Finset.erase_subset_erase fd h.others, ?_⟩
  have hsame : w.files.opened.erase fd \ w.files.others.erase fd =
      w.files.opened \ w.files.others := by
    ext fd'
    simp only [Finset.mem_sdiff, Finset.mem_erase, not_and, ne_eq]
    constructor
    · rintro ⟨⟨hne, hopened⟩, hnot⟩
      exact ⟨hopened, hnot hne⟩
    · rintro ⟨hopened, hnot⟩
      refine ⟨⟨?_, hopened⟩, fun _ => hnot⟩
      rintro rfl
      exact hnot hfd
  show Ownership.Owned w.hold _ w.files.made w.files.closed
  rw [hsame]
  exact h.owned

theorem isOpened_of_closes {o : Object} (h : o.closes = true) : o.m_socket.isOpened = true := by
  cases o with
  | connection c => exact (Bool.and_eq_true_iff.mp h).2
  | server s => exact h

/-- A `close` that does not call `::close`. -/
theorem close_of_not_closes {o : Object} (h : o.closes = false) (f : Files)
    (calls : List CloseCall) :
    ∃ o', o.close f calls = some (.ok (o', f)) ∧ o'.m_socket.held = o.m_socket.held := by
  cases o with
  | server s =>
      have hclosed : s.m_socket.isOpened = false := h
      refine ⟨.server s, ?_, rfl⟩
      simp [Object.close, Server.close, Socket.close, hclosed]
  | connection c =>
      cases hopened : c.m_opened with
      | false =>
          refine ⟨.connection c, ?_, rfl⟩
          simp [Object.close, Connection.close, hopened]
      | true =>
          have hclosed : c.m_socket.isOpened = false := by
            simpa [Object.closes, hopened] using h
          refine ⟨.connection ⟨c.m_socket, false⟩, ?_, rfl⟩
          simp [Object.close, Connection.close, Socket.close, hopened, hclosed]

/-- How a `close` that calls `::close` ends. -/
inductive ObjectClosing (o : Object) (f : Files) (calls : List CloseCall) :
    Option (Outcome (Object × Files)) → Prop
  | waits : ObjectClosing o f calls none
  | closed {o' : Object} (hstale : ¬ Stale calls) (hheld : o'.m_socket.held = none) :
      ObjectClosing o f calls (some (.ok (o', f.release o.m_socket.m_fd)))
  | stale (e : Exception) (hstale : Stale calls) :
      ObjectClosing o f calls (some (.threw e (o, f.release o.m_socket.m_fd)))
  | kept (e : Exception) (hstale : ¬ Stale calls) : ObjectClosing o f calls (some (.threw e (o, f)))

theorem object_close_spec {o : Object} (h : o.closes = true) {f : Files}
    (hfd : o.m_socket.m_fd ∈ f.opened)
    (calls : List CloseCall) : ObjectClosing o f calls (o.close f calls) := by
  have hsocket := close_spec (isOpened_of_closes h) hfd calls
  cases o with
  | server s =>
      show ObjectClosing _ f calls (((s.m_socket.close f calls).map _).map _)
      have hs : Closing s.m_socket f calls (s.m_socket.close f calls) := hsocket
      generalize s.m_socket.close f calls = ended at hs
      cases hs with
      | waits => exact .waits
      | closed hstale => exact .closed hstale rfl
      | stale e hstale => exact .stale e hstale
      | kept e hstale => exact .kept e hstale
  | connection c =>
      have hopened : c.m_opened = true := (Bool.and_eq_true_iff.mp h).1
      have hs : Closing c.m_socket f calls (c.m_socket.close f calls) := hsocket
      simp only [Object.close, Connection.close, hopened, Bool.not_true,
        Bool.false_eq_true, if_false]
      generalize c.m_socket.close f calls = ended at hs
      have heta : Object.connection ⟨c.m_socket, true⟩ = .connection c := by rw [← hopened]
      cases hs with
      | waits => exact .waits
      | closed hstale => exact .closed hstale rfl
      | stale e hstale =>
          show ObjectClosing _ f calls (some (.threw e (Object.connection ⟨c.m_socket, true⟩, _)))
          rw [heta]
          exact .stale e hstale
      | kept e hstale =>
          show ObjectClosing _ f calls (some (.threw e (Object.connection ⟨c.m_socket, true⟩, _)))
          rw [heta]
          exact .kept e hstale

/-- A descriptor that an object holds is open, and nobody else's. -/
theorem World.Owned.held_opened {w : World} (h : w.Owned) {i : Nat} {o : Object}
    (hi : w.objects i = some o)
    (hopened : o.m_socket.isOpened = true) : o.m_socket.m_fd ∈ w.files.opened := by
  have hheld : w.hold i = some o.m_socket.m_fd := by
    rw [hold_of_object hi, Socket.held_of_isOpened hopened]
  exact (Finset.mem_sdiff.mp (h.owned.live_of_held i _ hheld)).1

/-- A closed descriptor that an object still has. -/
theorem not_owned_of_released {w : World} {i : Nat} {o : Object}
    (hopened : o.m_socket.isOpened = true) :
    ¬ (w.put i (some o) (w.files.release o.m_socket.m_fd)).Owned := by
  intro h
  refine Ownership.Owned.not_owned_of_stale (i := i) (r := o.m_socket.m_fd) ?_ ?_ h.owned
  · rw [World.hold_put_self]
    exact Socket.held_of_isOpened hopened
  · intro hmem
    exact Finset.notMem_erase _ _ (Finset.mem_sdiff.mp hmem).1

theorem close_step_owned_iff {w w' : World} (h : w.Owned) {i : Nat} {calls : List CloseCall}
    (hstep : w.step (.close i calls) = some w') : w'.Owned ↔ w.Harmless (.close i calls) := by
  cases hi : w.objects i with
  | none =>
      simp only [World.step, hi] at hstep
      cases hstep
  | some o =>
      simp only [World.step, hi] at hstep
      have hhold := hold_of_object hi
      have hharmless : w.Harmless (.close i calls) ↔ (o.closes = true → ¬ Stale calls) := by
        simp only [World.Harmless, hi, Option.some.injEq, forall_eq']
      rw [hharmless]
      cases hcloses : o.closes with
      | false =>
          obtain ⟨o', hclose, hsame⟩ := close_of_not_closes hcloses w.files calls
          rw [hclose] at hstep
          cases hstep
          refine iff_of_true (h.put i ?_) (by simp)
          rw [hhold, ← hsame]
          exact .same _
      | true =>
          have hopened := isOpened_of_closes hcloses
          have hend := object_close_spec hcloses (h.held_opened hi hopened) calls
          generalize o.close w.files calls = ended at hend hstep
          rw [Socket.held_of_isOpened hopened] at hhold
          cases hend with
          | waits => cases hstep
          | closed hstale hheld =>
              cases hstep
              refine iff_of_true (h.put i ?_) fun _ => hstale
              rw [hhold]
              show Effect w.files _ (Object.m_socket _).held _
              rw [id_eq, hheld]
              exact .released _
          | stale e hstale =>
              cases hstep
              exact iff_of_false (not_owned_of_released hopened) fun hnot => hnot rfl hstale
          | kept e hstale =>
              cases hstep
              refine iff_of_true (h.put i ?_) fun _ => hstale
              rw [hhold]
              show Effect w.files _ (Object.m_socket _).held _
              rw [id_eq, Socket.held_of_isOpened hopened]
              exact .same _

theorem destroy_step_owned_iff {w w' : World} (h : w.Owned) {i : Nat} {calls : List CloseCall}
    (hstep : w.step (.destroy i calls) = some w') : w'.Owned ↔ w.Harmless (.destroy i calls) := by
  cases hi : w.objects i with
  | none =>
      simp only [World.step, hi] at hstep
      cases hstep
  | some o =>
      simp only [World.step, hi] at hstep
      have hhold := hold_of_object hi
      have hharmless : w.Harmless (.destroy i calls) ↔
          (o.m_socket.isOpened = true → ¬ Kept calls) := by
        simp only [World.Harmless, hi, Option.some.injEq, forall_eq']
      rw [hharmless]
      cases hopened : o.m_socket.isOpened with
      | false =>
          have hclose : o.m_socket.close w.files calls = some (.ok (o.m_socket, w.files)) := by
            rw [Socket.close, hopened]
            rfl
          rw [hclose] at hstep
          cases hstep
          refine iff_of_true (h.put i ?_) (by simp)
          rw [hhold, Socket.held_of_not_isOpened hopened]
          exact .same none
      | true =>
          have hend := close_spec hopened (h.held_opened hi hopened) calls
          generalize o.m_socket.close w.files calls = ended at hend hstep
          rw [Socket.held_of_isOpened hopened] at hhold
          cases hend with
          | waits => cases hstep
          | closed hstale hkept =>
              cases hstep
              refine iff_of_true (h.put i ?_) fun _ => hkept
              rw [hhold]
              exact .released _
          | stale e hstale hkept =>
              cases hstep
              refine iff_of_true (h.put i ?_) fun _ => hkept
              rw [hhold]
              exact .released _
          | kept e hstale hkept =>
              cases hstep
              refine iff_of_false (fun hleak => ?_) fun hnot => hnot rfl hkept
              exact h.owned.not_owned_of_leak hhold (w.hold_put_self i none w.files)
                (fun j hj => w.hold_put_ne hj none w.files) hleak.owned

/-- **One step.**  The descriptors stay owned exactly if the step is harmless. -/
theorem step_owned_iff {w w' : World} (h : w.Owned) {a : Act} (hstep : w.step a = some w') :
    w'.Owned ↔ w.Harmless a := by
  cases a with
  | close i calls => exact close_step_owned_iff h hstep
  | destroy i calls => exact destroy_step_owned_iff h hstep
  | connection i socket =>
      refine iff_of_true ?_ trivial
      simp only [World.step] at hstep
      split at hstep
      · cases hstep
      · next hcan =>
          cases hstep
          exact h.construct (fun _ => rfl) hcan
  | server i socket =>
      refine iff_of_true ?_ trivial
      simp only [World.step] at hstep
      split at hstep
      · cases hstep
      · next hcan =>
          cases hstep
          exact h.construct (fun _ => rfl) hcan
  | ofFD i fd =>
      refine iff_of_true ?_ trivial
      simp only [World.step] at hstep
      split at hstep
      · cases hstep
      · next hcan =>
          rw [not_or, not_not] at hcan
          cases hstep
          exact h.adopt (hold_of_none hcan.1) hcan.2
  | move i j =>
      refine iff_of_true ?_ trivial
      simp only [World.step] at hstep
      split at hstep
      · cases hstep
      · next o hi =>
          split at hstep
          · cases hstep
          · next hj =>
              cases hstep
              exact h.move hi hj
  | connect i ip port socket parsed connected =>
      refine iff_of_true ?_ trivial
      simp only [World.step] at hstep
      split at hstep
      · next c hi =>
          split at hstep
          · cases hstep
          · next hgrants =>
              refine h.behind ?_ hstep
              rw [hold_of_object hi]
              exact connect_effect c ip port (not_not.mp hgrants) parsed connected
      · cases hstep
      · cases hstep
  | readEnd i =>
      refine iff_of_true ?_ trivial
      simp only [World.step] at hstep
      split at hstep
      · next c hi =>
          split at hstep
          · cases hstep
            refine h.put i ?_
            rw [hold_of_object hi]
            exact .same _
          · cases hstep
      · cases hstep
      · cases hstep
  | «open» i socket parsed bound =>
      refine iff_of_true ?_ trivial
      simp only [World.step] at hstep
      split at hstep
      · next s hi =>
          split at hstep
          · cases hstep
          · next hgrants =>
              refine h.behind ?_ hstep
              rw [hold_of_object hi]
              exact server_open_effect s (not_not.mp hgrants) parsed bound
      · cases hstep
      · cases hstep
  | accept i j client =>
      refine iff_of_true ?_ trivial
      simp only [World.step] at hstep
      split at hstep
      · next s hi =>
          split at hstep
          · cases hstep
          · next hcan =>
              rw [not_or, not_not] at hcan
              have heffect := accept_effect s hcan.2
              rw [← hold_of_none hcan.1] at heffect
              generalize s.accept w.files client = accepted at heffect hstep
              cases accepted with
              | ok x =>
                  cases hstep
                  refine h.put j ?_
                  have hx : Effect w.files (w.hold j) (x.1.bind fun c => c.m_socket.held) x.2 :=
                    heffect
                  rw [Option.bind_map]
                  exact hx
              | threw e x =>
                  cases hstep
                  refine h.put j ?_
                  have hx : Effect w.files (w.hold j) (x.1.bind fun c => c.m_socket.held) x.2 :=
                    heffect
                  rw [Option.bind_map]
                  exact hx
              | undefined why => cases hstep
      · cases hstep
      · cases hstep
  | otherOpens fd =>
      refine iff_of_true ?_ trivial
      simp only [World.step] at hstep
      split at hstep
      · cases hstep
      · next hfree =>
          cases hstep
          exact h.otherOpens (not_not.mp hfree)
  | otherCloses fd =>
      refine iff_of_true ?_ trivial
      simp only [World.step] at hstep
      split at hstep
      · cases hstep
      · next hfd =>
          cases hstep
          exact h.otherCloses (not_not.mp hfd)

/-! ## Runs -/

theorem start_owned {others : Finset Int} (h : ∀ fd ∈ others, 0 ≤ fd) :
    (World.start others).Owned := by
  refine ⟨h, Finset.Subset.refl others, ?_⟩
  show Ownership.Owned (World.start others).hold (others \ others) [] []
  rw [Finset.sdiff_self]
  exact .empty _ fun _ => rfl

theorem run_owned {w w' : World} (h : w.Owned) {as : List Act}
    (hkeeps : EveryStep World.step (fun w a => ∀ w', w.step a = some w' → w'.Owned) w as)
    (hrun : w.run as = some w') : w'.Owned := by
  induction as generalizing w with
  | nil =>
      cases hrun
      exact h
  | cons a as ih =>
      obtain ⟨w₁, hstep, hrest⟩ := Option.bind_eq_some_iff.mp hrun
      exact ih (hkeeps.1 w₁ hstep) (hkeeps.2 w₁ hstep) hrest

/-- Without an object the classes have no descriptor open, and have closed
all that they obtained. -/
theorem World.Owned.all_closed {w : World} (h : w.Owned) (hnone : ∀ i, w.objects i = none) :
    w.files.opened = w.files.others ∧ ∀ fd, w.files.made.count fd = w.files.closed.count fd := by
  have hlive : w.files.opened \ w.files.others = ∅ := by
    refine Finset.eq_empty_of_forall_notMem fun fd hfd => ?_
    obtain ⟨i, hi⟩ := h.owned.covered fd hfd
    rw [World.hold, hnone i] at hi
    cases hi
  refine ⟨Finset.Subset.antisymm (Finset.sdiff_eq_empty_iff_subset.mp hlive) h.others, fun fd => ?_⟩
  have hbalance := h.owned.balance fd
  rw [hlive, if_neg (Finset.notMem_empty fd)] at hbalance
  exact hbalance

/-- **The descriptors of sockets, connections and servers.**  In every run each descriptor keeps one
owner, and each that was obtained is closed once behind its owner, exactly if no `close` fails
behind a `::close` that has closed the descriptor and no destructor leaves one open.  When the
objects are gone, only those of others are open. -/
theorem descriptors_owned {others : Finset Int} (h : ∀ fd ∈ others, 0 ≤ fd) (as : List Act) :
    (EveryStep World.step (fun w a => ∀ w', w.step a = some w' → w'.Owned) (.start others) as ↔
      EveryStep World.step (fun w a => ∀ w', w.step a = some w' → w.Harmless a)
        (.start others) as) ∧
    ∀ w, (World.start others).run as = some w →
      EveryStep World.step (fun w a => ∀ w', w.step a = some w' → w.Harmless a) (.start others) as →
      (∀ i, w.objects i = none) →
      w.files.opened = w.files.others ∧ ∀ fd, w.files.made.count fd = w.files.closed.count fd := by
  have hstep : ∀ (w : World) (a : Act) (w' : World), w.Owned → w.step a = some w' →
      (w'.Owned ↔ w.Harmless a) := fun _ _ _ hw hstep => step_owned_iff hw hstep
  have hiff := EveryStep.keeps_iff hstep (start_owned h) as
  refine ⟨hiff, fun w hrun hharmless hnone => ?_⟩
  exact (run_owned (start_owned h) (hiff.mpr hharmless) hrun).all_closed hnone

/-- A signal interrupts `::close` when it has closed the descriptor, and another part of the program
is given the number: the destructor closes it. -/
example :
    ((World.start {0, 1, 2}).run
      [.connection 0 (some 3), .connect 0 "127.1.1.1" 8888 none true true,
    .close 0 [.interrupted true], .otherOpens 3, .destroy 0 [.closed]]).map
      (fun w => (w.files.opened, w.files.others)) = some ({0, 1, 2}, {0, 1, 2, 3}) := by
  decide

/-- The client of the example; a signal interrupts its `close`. -/
def clientActs : List Act :=
  [.connection 0 (some 3), .connect 0 "127.1.1.1" 8888 none true true,
    .close 0 [.interrupted false, .closed], .destroy 0 []]

theorem descriptors_owned_client : ∃ w, (World.start {0, 1, 2}).run clientActs = some w ∧
    w.files.opened = w.files.others ∧ ∀ fd, w.files.made.count fd = w.files.closed.count fd := by
  have hothers : ∀ fd ∈ ({0, 1, 2} : Finset Int), 0 ≤ fd := by decide
  have hharmless : EveryStep World.step (fun w a => ∀ w', w.step a = some w' → w.Harmless a)
      (.start {0, 1, 2}) clientActs := by
    refine .cons (fun _ _ => trivial) rfl (.cons (fun _ _ => trivial) rfl ?_)
    refine .cons (fun _ _ _ _ _ => by simp [Stale, decisive]) rfl ?_
    exact .cons (fun _ _ _ _ _ => by simp [Kept, decisive]) rfl trivial
  refine ⟨_, rfl, (descriptors_owned hothers clientActs).2 _ rfl hharmless fun i => ?_⟩
  simp [World.put, World.start]

end Descriptors
end TCP
end AdvCppHW
