import AdvCppHW.Cpp.Outcome
import Mathlib.Data.Finset.Basic
import Mathlib.Logic.Function.Basic

/-!
# The descriptors of sockets, connections and servers

The classes `Socket`, `Connection` and `Server` of `hw3` as owners of descriptors: constructors,
moves, `connect`, `open`, `accept`, `close` and the destructor, with the ways in which the
system calls can end.  A connection that is not opened still has a socket; `close` leaves it
alone, and the destructor closes it.

`Socket::close` calls `::close` again when a signal has interrupted it, and a `::close` that fails
may have closed the descriptor all the same.

* `Socket`, `Connection`, `Server` — the members; `World.step` — a call, or
  another part of the program.
* `closeLoop_spec`, `close_spec` — what `Socket::close` comes to.
-/

namespace AdvCppHW
namespace TCP
namespace Descriptors

/-! ## The classes -/

/-- The descriptors of the process; `made` and `closed` are those that the classes have obtained and
closed. -/
structure Files where
  opened : Finset Int
  /-- Those that other parts of the program have opened. -/
  others : Finset Int
  made : List Int := []
  closed : List Int := []

namespace Files

/-- A descriptor from `socket` or `accept`. -/
def make (f : Files) (fd : Int) : Files :=
  { f with opened := insert fd f.opened, made := fd :: f.made }

def release (f : Files) (fd : Int) : Files :=
  { f with opened := f.opened.erase fd, closed := fd :: f.closed }

/-- Other parts of the program hand a descriptor over. -/
def adopt (f : Files) (fd : Int) : Files :=
  { f with others := f.others.erase fd, made := fd :: f.made }

/-- Numbers that the kernel may return for a new descriptor. -/
def Free (f : Files) (fd : Int) : Prop := 0 ≤ fd ∧ fd ∉ f.opened

/-- What `socket` and `accept` may return; `none` when they fail. -/
def Grants (f : Files) (result : Option Int) : Prop := ∀ fd, result = some fd → f.Free fd

instance (f : Files) (fd : Int) : Decidable (f.Free fd) := inferInstanceAs (Decidable (_ ∧ _))

instance (f : Files) (result : Option Int) : Decidable (f.Grants result) :=
  match result with
  | none => .isTrue fun _ h => absurd h (Option.some_ne_none _).symm
  | some fd =>
      decidable_of_iff (f.Free fd) ⟨fun h _ heq => Option.some.inj heq ▸ h, fun h => h fd rfl⟩

end Files

/-- How `::close` ends for an open descriptor; when it fails, the descriptor
may be `released` or not. -/
inductive CloseCall where
  | closed
  | interrupted (released : Bool)
  | failed (released : Bool)
deriving DecidableEq

structure Socket where
  m_fd : Int := -1

/-- The loop of `Socket::close`: whether it has ended without an exception.  The calls are those for
an open descriptor; for another one `::close` fails at once. -/
def closeLoop (fd : Int) (f : Files) (calls : List CloseCall) : Option (Bool × Files) :=
  if fd ∈ f.opened then
    match calls with
    | [] => none
    | .closed :: _ => some (true, f.release fd)
    | .interrupted released :: calls => closeLoop fd (if released then f.release fd else f) calls
    | .failed released :: _ => some (false, if released then f.release fd else f)
  else
    some (false, f)

namespace Socket

def isOpened (s : Socket) : Bool := s.m_fd ≠ -1

/-- The descriptor of a socket. -/
def held (s : Socket) : Option Int := if s.isOpened then some s.m_fd else none

/-- The constructor. -/
def construct (f : Files) : Option Int → Except Exception Socket × Files
  | none => (.error (.DescriptorError "Error creating socket!"), f)
  | some fd => (.ok ⟨fd⟩, f.make fd)

def «open» (s : Socket) (f : Files) (socket : Option Int) : Outcome (Socket × Files) :=
  if s.isOpened then .ok (s, f)
  else
    match socket with
    | none => .threw (.DescriptorError "Error opening socket!") (s, f)
    | some fd => .ok (⟨fd⟩, f.make fd)

def bind (s : Socket) (f : Files) (parsed bound : Bool) : Outcome (Socket × Files) :=
  if !s.isOpened then .ok (s, f)
  else if !parsed then .threw (.IOError "Error parsing address!") (s, f)
  else if !bound then .threw (.NetworkError "Error binding IP:Port to socket!") (s, f)
  else .ok (s, f)

/-- `none` when it does not return. -/
def close (s : Socket) (f : Files) (calls : List CloseCall) : Option (Outcome (Socket × Files)) :=
  if s.isOpened then
    (closeLoop s.m_fd f calls).map fun
      | (true, f') => .ok ({}, f')
      | (false, f') => .threw (.DescriptorError "Error closing socket!") (s, f')
  else
    some (.ok (s, f))

end Socket

structure Connection where
  m_socket : Socket
  m_opened : Bool

namespace Connection

def close (c : Connection) (f : Files) (calls : List CloseCall) :
    Option (Outcome (Connection × Files)) :=
  if !c.m_opened then some (.ok (c, f))
  else (c.m_socket.close f calls).map fun closing =>
    (closing.map fun (s, f) => (⟨s, c.m_opened⟩, f)).andThen fun (c, f) => .ok
    (⟨c.m_socket, false⟩, f)

def connect (c : Connection) (f : Files) (ip : String) (port : UInt16) (socket : Option Int)
    (parsed connected : Bool) : Outcome (Connection × Files) :=
  if c.m_opened then .threw (.NetworkError "Already has opened connection!") (c, f)
  else
    ((c.m_socket.open f socket).map fun (s, f) => (⟨s, c.m_opened⟩, f)).andThen fun (c, f) =>
      if !parsed then .threw (.IOError "Error parsing address!") (c, f)
      else if !connected then
        .threw (.NetworkError ("Error connecting to " ++ ip ++ " " ++ toString port)) (c, f)
      else .ok (⟨c.m_socket, true⟩, f)

/-- A `read` that meets the end of the stream. -/
def readEnd (c : Connection) : Connection := { c with m_opened := false }

end Connection

structure Server where
  m_socket : Socket

namespace Server

def «open» (s : Server) (f : Files) (socket : Option Int) (parsed bound : Bool) :
    Outcome (Server × Files) :=
  ((s.m_socket.open f socket).andThen fun (socket, f) => socket.bind f parsed bound).map
    fun (socket, f) =>
    (⟨socket⟩, f)

/-- `accept`, with the connection that it returns. -/
def accept (s : Server) (f : Files) (client : Option Int) : Outcome (Option Connection × Files) :=
  if !s.m_socket.isOpened then .threw (.NetworkError "Server closed!") (none, f)
  else
    match client with
    | none => .threw (.NetworkError "Error accepting connection!") (none, f)
    | some fd => .ok (some ⟨⟨fd⟩, true⟩, f.make fd)

def close (s : Server) (f : Files) (calls : List CloseCall) : Option (Outcome (Server × Files)) :=
  (s.m_socket.close f calls).map (Outcome.map fun (socket, f) => (⟨socket⟩, f))

end Server

/-! ## The program that uses them -/

inductive Object where
  | connection (c : Connection)
  | server (s : Server)

namespace Object

def m_socket : Object → Socket
  | connection c => c.m_socket
  | server s => s.m_socket

/-- What a moved object leaves: `m_opened` is copied. -/
def moved : Object → Object
  | connection c => connection ⟨{}, c.m_opened⟩
  | server _ => server ⟨{}⟩

def close : Object → Files → List CloseCall → Option (Outcome (Object × Files))
  | connection c, f, calls => (c.close f calls).map (Outcome.map fun (c, f) => (connection c, f))
  | server s, f, calls => (s.close f calls).map (Outcome.map fun (s, f) => (server s, f))

/-- Whether its `close` calls `::close`. -/
def closes : Object → Bool
  | connection c => c.m_opened && c.m_socket.isOpened
  | server s => s.m_socket.isOpened

end Object

/-- The descriptors of the process and the objects, under the names that
the program has for them. -/
structure World where
  files : Files
  objects : Nat → Option Object

/-- A call for an object, or what another part of the program does; with what
the system calls come to. -/
inductive Act where
  /-- `Connection()`. -/
  | connection (i : Nat) (socket : Option Int)
  /-- `Connection(fd)`, for a descriptor that another part of the program has opened. -/
  | ofFD (i : Nat) (fd : Int)
  /-- `Server(ip, port)`. -/
  | server (i : Nat) (socket : Option Int)
  /-- The move constructor, from `i` to the new object `j`. -/
  | move (i j : Nat)
  | connect (i : Nat) (ip : String) (port : UInt16) (socket : Option Int) (parsed connected : Bool)
  | readEnd (i : Nat)
  | open (i : Nat) (socket : Option Int) (parsed bound : Bool)
  /-- `accept` of the server `i`, and the connection `j` that it returns. -/
  | accept (i j : Nat) (client : Option Int)
  | close (i : Nat) (calls : List CloseCall)
  /-- The destructor; an exception in it is caught. -/
  | destroy (i : Nat) (calls : List CloseCall)
  | otherOpens (fd : Int)
  | otherCloses (fd : Int)

namespace World

/-- The object `i`, when there is none, one, or one behind a call. -/
def put (w : World) (i : Nat) (o : Option Object) (f : Files) : World where
  files := f
  objects := Function.update w.objects i o

/-- Behind a member of `i` that has returned or thrown. -/
def behind (w : World) (i : Nat) {σ : Type} (object : σ → Object) :
    Outcome (σ × Files) → Option World
  | .ok (x, f) => some (w.put i (some (object x)) f)
  | .threw _ (x, f) => some (w.put i (some (object x)) f)
  | .undefined _ => none

/-- `none` when the step is not possible. -/
def step (w : World) : Act → Option World
  | .connection i socket =>
      if (w.objects i).isSome ∨ ¬ w.files.Grants socket then none
      else
        let (s, f) := Socket.construct w.files socket
        some (w.put i (s.toOption.map fun s => .connection ⟨s, false⟩) f)
  | .ofFD i fd =>
      if (w.objects i).isSome ∨ fd ∉ w.files.others then none
      else some (w.put i (some (.connection ⟨⟨fd⟩, true⟩)) (w.files.adopt fd))
  | .server i socket =>
      if (w.objects i).isSome ∨ ¬ w.files.Grants socket then none
      else
        let (s, f) := Socket.construct w.files socket
        some (w.put i (s.toOption.map fun s => .server ⟨s⟩) f)
  | .move i j =>
      match w.objects i with
      | none => none
      | some o =>
          if (w.objects j).isSome then none
          else some ((w.put j (some o) w.files).put i (some o.moved) w.files)
  | .connect i ip port socket parsed connected =>
      match w.objects i with
      | some (.connection c) =>
          if ¬ w.files.Grants socket then none
          else w.behind i .connection (c.connect w.files ip port socket parsed connected)
      | some (.server _) | none => none
  | .readEnd i =>
      match w.objects i with
      | some (.connection c) =>
          if c.m_opened then some (w.put i (some (.connection c.readEnd)) w.files) else none
      | some (.server _) | none => none
  | .open i socket parsed bound =>
      match w.objects i with
      | some (.server s) =>
          if ¬ w.files.Grants socket then none
          else w.behind i .server (s.open w.files socket parsed bound)
      | some (.connection _) | none => none
  | .accept i j client =>
      match w.objects i with
      | some (.server s) =>
          if (w.objects j).isSome ∨ ¬ w.files.Grants client then none
          else
            match s.accept w.files client with
            | .ok (c, f) => some (w.put j (c.map .connection) f)
            | .threw _ (c, f) => some (w.put j (c.map .connection) f)
            | .undefined _ => none
      | some (.connection _) | none => none
  | .close i calls =>
      match w.objects i with
      | some o => (o.close w.files calls).bind (w.behind i id)
      | none => none
  | .destroy i calls =>
      match w.objects i with
      | some o =>
          match o.m_socket.close w.files calls with
          | some (.ok (_, f)) => some (w.put i none f)
          | some (.threw _ (_, f)) => some (w.put i none f)
          | some (.undefined _) | none => none
      | none => none
  | .otherOpens fd =>
      if ¬ w.files.Free fd then none
      else some { w with
        files := { w.files with
          opened := insert fd w.files.opened, others := insert fd w.files.others } }
  | .otherCloses fd =>
      if fd ∉ w.files.others then none
      else some { w with
        files := { w.files with
          opened := w.files.opened.erase fd, others := w.files.others.erase fd } }

def run : World → List Act → Option World
  | w, [] => some w
  | w, a :: as => (w.step a).bind (run · as)

/-- No object yet. -/
def start (others : Finset Int) : World where
  files := { opened := others, others := others }
  objects := fun _ => none

end World

/-! ## What `Socket::close` comes to -/

/-- The first call that is not only repeated. -/
def decisive : List CloseCall → Option CloseCall
  | [] => none
  | .interrupted false :: calls => decisive calls
  | call :: _ => some call

/-- `::close` fails, and has closed the descriptor. -/
def Stale (calls : List CloseCall) : Prop :=
  decisive calls = some (.interrupted true) ∨ decisive calls = some (.failed true)

/-- `::close` fails, and the descriptor is still open. -/
def Kept (calls : List CloseCall) : Prop := decisive calls = some (.failed false)

inductive LoopEnd (fd : Int) (f : Files) (calls : List CloseCall) : Option (Bool × Files) → Prop
  | waits : LoopEnd fd f calls none
  | closed (hstale : ¬ Stale calls) (hkept : ¬ Kept calls) : LoopEnd fd f calls
    (some (true, f.release fd))
  | stale (hstale : Stale calls) (hkept : ¬ Kept calls) : LoopEnd fd f calls
    (some (false, f.release fd))
  | kept (hstale : ¬ Stale calls) (hkept : Kept calls) : LoopEnd fd f calls (some (false, f))

theorem closeLoop_of_notMem {fd : Int} {f : Files} (h : fd ∉ f.opened) (calls : List CloseCall) :
    closeLoop fd f calls = some (false, f) := by
  cases calls with
  | nil => rw [closeLoop, if_neg h]
  | cons call calls => rw [closeLoop.eq_def, if_neg h]

theorem closeLoop_spec {fd : Int} {f : Files} (h : fd ∈ f.opened) (calls : List CloseCall) :
    LoopEnd fd f calls (closeLoop fd f calls) := by
  induction calls with
  | nil =>
      rw [closeLoop, if_pos h]
      exact .waits
  | cons call calls ih =>
      rw [closeLoop.eq_def, if_pos h]
      cases call with
      | closed => exact .closed (by simp [Stale, decisive]) (by simp [Kept, decisive])
      | failed released =>
          cases released with
          | true => exact .stale (Or.inr rfl) (by simp [Kept, decisive])
          | false => exact .kept (by simp [Stale, decisive]) rfl
      | interrupted released =>
          cases released with
          | true =>
              -- the next call finds the descriptor closed
              have hgone : fd ∉ (f.release fd).opened := Finset.notMem_erase fd f.opened
              show LoopEnd fd f _ (closeLoop fd (f.release fd) calls)
              rw [closeLoop_of_notMem hgone]
              exact .stale (Or.inl rfl) (by simp [Kept, decisive])
          | false =>
              show LoopEnd fd f _ (closeLoop fd f calls)
              generalize closeLoop fd f calls = ended at ih
              cases ih with
              | waits => exact .waits
              | closed hstale hkept => exact .closed hstale hkept
              | stale hstale hkept => exact .stale hstale hkept
              | kept hstale hkept => exact .kept hstale hkept

/-- How `close` of an open socket ends. -/
inductive Closing (s : Socket) (f : Files) (calls : List CloseCall) :
    Option (Outcome (Socket × Files)) → Prop
  | waits : Closing s f calls none
  | closed (hstale : ¬ Stale calls) (hkept : ¬ Kept calls) :
      Closing s f calls (some (.ok ({}, f.release s.m_fd)))
  | stale (e : Exception) (hstale : Stale calls) (hkept : ¬ Kept calls) :
      Closing s f calls (some (.threw e (s, f.release s.m_fd)))
  | kept (e : Exception) (hstale : ¬ Stale calls) (hkept : Kept calls) :
      Closing s f calls (some (.threw e (s, f)))

theorem close_spec {s : Socket} {f : Files} (h : s.isOpened = true) (hfd : s.m_fd ∈ f.opened)
    (calls : List CloseCall) : Closing s f calls (s.close f calls) := by
  rw [Socket.close, if_pos h]
  have hloop := closeLoop_spec hfd calls
  generalize closeLoop s.m_fd f calls = ended at hloop
  cases hloop with
  | waits => exact .waits
  | closed hstale hkept => exact .closed hstale hkept
  | stale hstale hkept => exact .stale _ hstale hkept
  | kept hstale hkept => exact .kept _ hstale hkept

end Descriptors
end TCP
end AdvCppHW
