/-!
# Exceptions

The exception classes of `exceptions/Exceptions.hpp`, which all derive from `HW::BaseException`,
and the exceptions that reach the framework from elsewhere: those of the standard library and those
thrown by a user's `onRequest`.
-/

namespace AdvCppHW

/-- An exception in flight.  The first six constructors are the classes derived from
`HW::BaseException`, with their `what()` text. -/
inductive Exception where
  | ArgumentError (info : String)
  | ProcessError (info : String)
  | DescriptorError (info : String)
  | IOError (info : String)
  | NetworkError (info : String)
  | IPCError (info : String)
  /-- `std::out_of_range`, thrown by `std::string::substr` and `std::stoi`. -/
  | out_of_range
  /-- `std::invalid_argument`, thrown by `std::stoi`. -/
  | invalid_argument
  /-- Not thrown by any code: marks a `size_t` subtraction whose result would be negative. -/
  | sizeWrap
  /-- An exception of a class that does not derive from `HW::BaseException`. -/
  | other (tag : Nat)
deriving DecidableEq, Repr

namespace Exception

/-- Whether `catch (HW::BaseException &e)` takes the exception. -/
def isBaseException : Exception → Bool
  | ArgumentError _ | ProcessError _ | DescriptorError _ => true
  | IOError _ | NetworkError _ | IPCError _ => true
  | out_of_range | invalid_argument | sizeWrap | other _ => false

/-- Whether `catch (ArgumentError &e)` takes the exception. -/
def isArgumentError : Exception → Bool
  | ArgumentError _ => true
  | _ => false

end Exception
end AdvCppHW
