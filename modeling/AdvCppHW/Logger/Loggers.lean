import Mathlib.Order.Basic
import AdvCppHW.Cpp.ByteString
import AdvCppHW.Support.OrdMap

/-!
# The loggers of the standard streams

`StdoutLogger` and `StderrLogger` of `Loggers.cpp`.  Their constructors complete the map in which
`log` looks up the format of a message; `set_format` stores a map as it is.

* `StreamLogger.log` — prints a message, or dereferences `end()`.
* `StreamLogger.run` — a sequence of calls.
* `everyMessageFormatted_iff` — the calls for which `end()` is never dereferenced.
-/

namespace AdvCppHW
namespace Logger

open Support

/-- `enum class Level`. -/
inductive Level where
  | all | trace | debug | info | warn | error | fatal | off
deriving DecidableEq, Repr

/-- `static_cast<int>(level)`. -/
def Level.number : Level → Nat
  | all => 0
  | trace => 1
  | debug => 2
  | info => 3
  | warn => 4
  | error => 5
  | fatal => 6
  | off => 7

/-- `static_cast<Level>(n)`, for the number of a level. -/
def Level.ofNumber : Nat → Level
  | 0 => all
  | 1 => trace
  | 2 => debug
  | 3 => info
  | 4 => warn
  | 5 => error
  | 6 => fatal
  | _ => off

@[simp] theorem Level.ofNumber_number (level : Level) : Level.ofNumber level.number = level := by
  cases level <;> rfl

theorem Level.number_injective : Function.Injective Level.number :=
  Function.LeftInverse.injective Level.ofNumber_number

instance : LinearOrder Level := LinearOrder.lift' Level.number Level.number_injective

/-- `Format::LogFormat`. -/
abbrev LogFormat := OrdMap Level Bytes

/-- `Format::Color::DEFAULT`. -/
def Color.DEFAULT : Bytes := ascii "\x1b[39m"

/-- `Format::Color::RESET_ENDLINE`. -/
def Color.RESET_ENDLINE : Bytes := ascii "\x1b[0m"

/-- The levels whose numbers the loop of `fill_format_with` goes through. -/
def messageLevels : List Level :=
  (List.range' (Level.all.number + 1) (Level.off.number - (Level.all.number + 1))).map
    Level.ofNumber

/-- `Format::fill_format_with`: an entry for each level between `ALL` and `OFF` that has none. -/
def fill_format_with (format : LogFormat) (color : Bytes) : LogFormat :=
  messageLevels.foldl (fun format level => format.insertNew level color) format

/-- The streams that messages are printed to. -/
inductive StandardStream where
  | cout | cerr
deriving DecidableEq, Repr

/-- The members of `StdoutLogger` and of `StderrLogger`, which differ in their stream only. -/
structure StreamLogger where
  stream : StandardStream
  m_level : Level
  m_format : LogFormat
deriving DecidableEq

/-- What a call does besides changing the logger. -/
inductive Logged where
  | nothing
  | printed (stream : StandardStream) (text : Bytes)
  /-- `it->second` for `it = m_format.end()`. -/
  | endDereferenced
deriving DecidableEq

namespace StreamLogger

/-- The two constructors, without a map and with one. -/
def construct (stream : StandardStream) (level : Level) : Option LogFormat → StreamLogger
  | none => ⟨stream, level, fill_format_with OrdMap.empty Color.DEFAULT⟩
  | some format => ⟨stream, level, fill_format_with format Color.DEFAULT⟩

/-- `log`; the text ends with the newline of `std::endl`. -/
def log (msg : Bytes) (level : Level) (logger : StreamLogger) : Logged :=
  if logger.m_level ≤ level then
    match logger.m_format.lookup level with
    | some color => .printed logger.stream (color ++ msg ++ Color.RESET_ENDLINE ++ ascii "\n")
    | none => .endDereferenced
  else
    .nothing

/-- `BaseLogger::trace`. -/
def trace (msg : Bytes) (logger : StreamLogger) : Logged := logger.log msg .trace

/-- `BaseLogger::debug`. -/
def debug (msg : Bytes) (logger : StreamLogger) : Logged := logger.log msg .debug

/-- `BaseLogger::info`. -/
def info (msg : Bytes) (logger : StreamLogger) : Logged := logger.log msg .info

/-- `BaseLogger::warn`. -/
def warn (msg : Bytes) (logger : StreamLogger) : Logged := logger.log msg .warn

/-- `BaseLogger::error`. -/
def error (msg : Bytes) (logger : StreamLogger) : Logged := logger.log msg .error

/-- `BaseLogger::fatal`. -/
def fatal (msg : Bytes) (logger : StreamLogger) : Logged := logger.log msg .fatal

/-- `BaseLogger::set_level`. -/
def set_level (level : Level) (logger : StreamLogger) : StreamLogger :=
  { logger with m_level := level }

def set_format (format : LogFormat) (logger : StreamLogger) : StreamLogger :=
  { logger with m_format := format }

end StreamLogger

/-- `StdoutLogger::StdoutLogger`. -/
def StdoutLogger (level : Level) (format : Option LogFormat) : StreamLogger :=
  StreamLogger.construct .cout level format

/-- `StderrLogger::StderrLogger`. -/
def StderrLogger (level : Level) (format : Option LogFormat) : StreamLogger :=
  StreamLogger.construct .cerr level format

/-- The calls of the public members. -/
inductive Call where
  | trace (msg : Bytes)
  | debug (msg : Bytes)
  | info (msg : Bytes)
  | warn (msg : Bytes)
  | error (msg : Bytes)
  | fatal (msg : Bytes)
  | set_level (level : Level)
  | set_format (format : LogFormat)

namespace Call

def perform (logger : StreamLogger) : Call → StreamLogger × Logged
  | trace msg => (logger, logger.trace msg)
  | debug msg => (logger, logger.debug msg)
  | info msg => (logger, logger.info msg)
  | warn msg => (logger, logger.warn msg)
  | error msg => (logger, logger.error msg)
  | fatal msg => (logger, logger.fatal msg)
  | set_level level => (logger.set_level level, .nothing)
  | set_format format => (logger.set_format format, .nothing)

/-- The level at which a call passes a message to `log`. -/
def messageLevel : Call → Option Level
  | trace _ => some .trace
  | debug _ => some .debug
  | info _ => some .info
  | warn _ => some .warn
  | error _ => some .error
  | fatal _ => some .fatal
  | set_level _ | set_format _ => none

/-- The level that a call sets. -/
def newLevel : Call → Option Level
  | set_level level => some level
  | _ => none

/-- The map that a call sets. -/
def newFormat : Call → Option LogFormat
  | set_format format => some format
  | _ => none

end Call

/-- The calls one after another: the logger behind them and what was printed, unless `end()` was
dereferenced. -/
def StreamLogger.run (logger : StreamLogger) :
    List Call → Option (StreamLogger × List (StandardStream × Bytes))
  | [] => some (logger, [])
  | call :: calls =>
      match call.perform logger with
      | (_, .endDereferenced) => none
      | (logger', .nothing) => logger'.run calls
      | (logger', .printed stream text) =>
          (logger'.run calls).map fun (reached, printed) => (reached, (stream, text) :: printed)

/-- If the call prints a message, there is a format for its level. -/
def StreamLogger.HasFormat (logger : StreamLogger) (call : Call) : Prop :=
  ∀ level, call.messageLevel = some level → logger.m_level ≤ level → level ∈ logger.m_format

/-- Whenever a message is printed there is a format for its level, and `end()` is never
dereferenced. -/
def StreamLogger.EveryMessageFormatted (logger : StreamLogger) (calls : List Call) : Prop :=
  (∀ before call after, calls = before ++ call :: after →
    ∀ reached printed, logger.run before = some (reached, printed) → reached.HasFormat call) ∧
  logger.run calls ≠ none

/-- The level in force behind some calls. -/
def levelAfter (level : Level) (calls : List Call) : Level :=
  (calls.filterMap Call.newLevel).getLastD level

/-- The map that was set last. -/
def formatAfter (calls : List Call) : Option LogFormat :=
  (calls.filterMap Call.newFormat).getLast?

/-- The map set last, if any was set, has an entry for every message that
reaches the level in force. -/
def FormatsSuffice (level : Level) (calls : List Call) : Prop :=
  ∀ before call after, calls = before ++ call :: after →
    ∀ l, call.messageLevel = some l → levelAfter level before ≤ l →
      ∀ format, formatAfter before = some format → l ∈ format

/-! ## The maps of the constructors -/

theorem lookup_insertAll (levels : List Level) (color : Bytes) (format : LogFormat)
    (level : Level) :
    (levels.foldl (fun format l => format.insertNew l color) format).lookup level =
      (format.lookup level).or (if level ∈ levels then some color else none) := by
  induction levels generalizing format with
  | nil => simp
  | cons l levels ih =>
      rw [List.foldl_cons, ih, OrdMap.lookup_insertNew]
      by_cases heq : level = l
      · simp [heq]
      · simp [heq]

theorem mem_messageLevels_of_messageLevel {call : Call} {level : Level}
    (h : call.messageLevel = some level) : level ∈ messageLevels := by
  cases call with
  | set_level l => cases h
  | set_format format => cases h
  | trace msg => cases h; decide
  | debug msg => cases h; decide
  | info msg => cases h; decide
  | warn msg => cases h; decide
  | error msg => cases h; decide
  | fatal msg => cases h; decide

/-- Behind `fill_format_with` every message has a format; those that had one keep it. -/
theorem lookup_fill_format_with (format : LogFormat) (color : Bytes) (level : Level) :
    (fill_format_with format color).lookup level =
      (format.lookup level).or (if level ∈ messageLevels then some color else none) :=
  lookup_insertAll messageLevels color format level

theorem mem_fill_format_with {format : LogFormat} {color : Bytes} {level : Level}
    (h : level ∈ messageLevels) : level ∈ fill_format_with format color := by
  rw [OrdMap.mem_iff, lookup_fill_format_with, if_pos h]
  cases format.lookup level with
  | none => exact ⟨color, rfl⟩
  | some c => exact ⟨c, rfl⟩

namespace StreamLogger

theorem mem_format_construct (stream : StandardStream) (l : Level) (format : Option LogFormat)
    {level : Level} (h : level ∈ messageLevels) : level ∈ (construct stream l format).m_format := by
  cases format with
  | none =>
      have hfilled : level ∈ fill_format_with OrdMap.empty Color.DEFAULT := mem_fill_format_with h
      simpa only [construct] using hfilled
  | some format =>
      have hfilled : level ∈ fill_format_with format Color.DEFAULT := mem_fill_format_with h
      simpa only [construct] using hfilled

@[simp] theorem level_construct (stream : StandardStream) (l : Level) (format : Option LogFormat) :
    (construct stream l format).m_level = l := by
  cases format <;> rfl

/-! ## What one call does -/

theorem log_eq_endDereferenced_iff {msg : Bytes} {level : Level} {logger : StreamLogger} :
    logger.log msg level = .endDereferenced ↔ logger.m_level ≤ level ∧ level ∉ logger.m_format := by
  rw [OrdMap.notMem_iff, log]
  split
  · next hle =>
      cases logger.m_format.lookup level with
      | none => simp [hle]
      | some color => simp
  · next hle => simp [hle]

/-- A call passes its message to `log` and leaves the logger as it was, or it logs nothing. -/
theorem perform_cases (logger : StreamLogger) (call : Call) :
    (∃ msg level, call.messageLevel = some level ∧ call.perform logger =
      (logger, logger.log msg level)) ∨
      (call.messageLevel = none ∧ (call.perform logger).2 = .nothing) := by
  cases call with
  | trace msg => exact Or.inl ⟨msg, .trace, rfl, rfl⟩
  | debug msg => exact Or.inl ⟨msg, .debug, rfl, rfl⟩
  | info msg => exact Or.inl ⟨msg, .info, rfl, rfl⟩
  | warn msg => exact Or.inl ⟨msg, .warn, rfl, rfl⟩
  | error msg => exact Or.inl ⟨msg, .error, rfl, rfl⟩
  | fatal msg => exact Or.inl ⟨msg, .fatal, rfl, rfl⟩
  | set_level level => exact Or.inr ⟨rfl, rfl⟩
  | set_format format => exact Or.inr ⟨rfl, rfl⟩

theorem perform_endDereferenced_iff {logger : StreamLogger} {call : Call} :
    (call.perform logger).2 = .endDereferenced ↔ ¬ logger.HasFormat call := by
  rcases perform_cases logger call with ⟨msg, level, hlevel, hperform⟩ | ⟨hlevel, hperform⟩
  · simp [hperform, HasFormat, hlevel, log_eq_endDereferenced_iff]
  · simp [hperform, HasFormat, hlevel]

/-- The level and the map behind a call. -/
theorem perform_fst (logger : StreamLogger) (call : Call) :
    (call.perform logger).1 =
      ⟨logger.stream, call.newLevel.getD logger.m_level, call.newFormat.getD logger.m_format⟩ := by
  cases call <;> rfl

/-! ## What a sequence of calls does -/

/-- The logger behind some calls. -/
def after (logger : StreamLogger) (calls : List Call) : StreamLogger :=
  ⟨logger.stream, levelAfter logger.m_level calls, (formatAfter calls).getD logger.m_format⟩

theorem after_cons (logger : StreamLogger) (call : Call) (calls : List Call) :
    logger.after (call :: calls) = (call.perform logger).1.after calls := by
  rw [perform_fst]
  cases call <;> simp [after, levelAfter, formatAfter, Call.newLevel, Call.newFormat,
    List.getLast?_cons]

theorem run_cons (logger : StreamLogger) (call : Call) (calls : List Call) :
    (¬ logger.HasFormat call ∧ logger.run (call :: calls) = none) ∨
      (logger.HasFormat call ∧ ∃ text, logger.run (call :: calls) =
        ((call.perform logger).1.run calls).map fun (reached, printed) =>
        (reached, text ++ printed)) := by
  by_cases hformat : logger.HasFormat call
  · right
    refine ⟨hformat, ?_⟩
    have hdefined := mt perform_endDereferenced_iff.mp (not_not.mpr hformat)
    rw [run]
    cases hperform : call.perform logger with
    | mk logger' logged =>
        rw [hperform] at hdefined
        cases logged with
        | nothing => exact ⟨[], by simp⟩
        | printed stream text => exact ⟨[(stream, text)], rfl⟩
        | endDereferenced => exact absurd rfl hdefined
  · left
    refine ⟨hformat, ?_⟩
    have hundefined := perform_endDereferenced_iff.mpr hformat
    rw [run]
    cases hperform : call.perform logger with
    | mk logger' logged =>
        rw [hperform] at hundefined
        cases hundefined
        rfl

theorem run_eq_some {logger reached : StreamLogger} {calls : List Call}
    {printed : List (StandardStream × Bytes)} (h : logger.run calls = some (reached, printed)) :
    reached = logger.after calls := by
  induction calls generalizing logger printed with
  | nil =>
      cases h
      rfl
  | cons call calls ih =>
      rcases run_cons logger call calls with ⟨-, hnone⟩ | ⟨-, text, hrun⟩
      · rw [hnone] at h
        cases h
      · rw [hrun] at h
        obtain ⟨⟨reached', printed'⟩, hrest, heq⟩ := Option.map_eq_some_iff.mp h
        cases heq
        rw [after_cons]
        exact ih hrest

/-- The first message without a format ends the run. -/
theorem run_ne_none_iff {logger : StreamLogger} {calls : List Call} :
    logger.run calls ≠ none ↔
      ∀ before call rest, calls = before ++ call :: rest →
      (logger.after before).HasFormat call := by
  induction calls generalizing logger with
  | nil => simp [run]
  | cons call calls ih =>
      rcases run_cons logger call calls with ⟨hformat, hnone⟩ | ⟨hformat, text, hrun⟩
      · constructor
        · intro h
          exact absurd hnone h
        · intro h
          exact absurd (h [] call calls rfl) hformat
      · rw [hrun, Ne, Option.map_eq_none_iff, ← Ne, ih]
        constructor
        · intro h before c rest heq
          cases before with
          | nil =>
              cases heq
              exact hformat
          | cons b before =>
              cases heq
              rw [after_cons]
              exact h before c rest rfl
        · intro h before c rest heq
          rw [← after_cons]
          exact h (call :: before) c rest (by rw [heq]; rfl)

/-- The maps of the constructors have every level of a message, so that only a map
set later can lack one. -/
theorem hasFormat_after_construct {stream : StandardStream} {level : Level}
    {format : Option LogFormat} {calls : List Call} {call : Call} :
    ((construct stream level format).after calls).HasFormat call ↔
      ∀ l, call.messageLevel = some l → levelAfter level calls ≤ l →
        ∀ format', formatAfter calls = some format' → l ∈ format' := by
  have hlevel : ((construct stream level format).after calls).m_level = levelAfter level calls := by
    simp [after]
  unfold HasFormat
  rw [hlevel]
  refine forall₃_congr fun l hmessage _ => ?_
  show l ∈ (formatAfter calls).getD _ ↔ _
  cases formatAfter calls with
  | none =>
      simp [mem_format_construct stream level format (mem_messageLevels_of_messageLevel hmessage)]
  | some format' => simp

/-- A logger of a standard stream has a format for every message it prints exactly when the map set
last, if there is one, has an entry for each message that reaches the level in force. -/
theorem everyMessageFormatted_iff (stream : StandardStream) (level : Level)
    (format : Option LogFormat) (calls : List Call) :
    (construct stream level format).EveryMessageFormatted calls ↔ FormatsSuffice level calls := by
  have hruns : (construct stream level format).run calls ≠ none ↔ FormatsSuffice level calls := by
    rw [run_ne_none_iff]
    exact forall₄_congr fun before call after heq => hasFormat_after_construct
  constructor
  · rintro ⟨-, hrun⟩
    exact hruns.mp hrun
  · intro h
    refine ⟨?_, hruns.mpr h⟩
    intro before call after heq reached printed hreached
    rw [run_eq_some hreached]
    exact run_ne_none_iff.mp (hruns.mpr h) before call after heq

/-- A map without the level of a message, set behind the constructor. -/
theorem set_format_partial :
    ¬ (StdoutLogger .all none).EveryMessageFormatted
      [.set_format (OrdMap.empty.assign .error Color.DEFAULT), .info (ascii "ready")] := by
  rintro ⟨-, hrun⟩
  exact hrun rfl

end StreamLogger
end Logger
end AdvCppHW
