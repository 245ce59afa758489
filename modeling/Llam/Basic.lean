import Mathlib

/-!
# Error codes and limits

The `errno` values the modelled functions return, and the limits of the integer types. A call that succeeds returns 0,
which is not an `Errno`: a wait node's `error_code` is an `Option Errno`, with `none` for 0.
-/

namespace Llam

/-- The error codes of the modelled calls, under their C names. -/
inductive Errno
  | EINVAL | ENOMEM | EOVERFLOW | EPIPE | EAGAIN | ETIMEDOUT | ECANCELED | EBUSY | EDEADLK | EPERM | EXDEV | ENOTSUP
  | ENODEV | EIO | EACCES | ENOSPC | EMSGSIZE
  deriving DecidableEq, Repr

/-- `UINT_MAX` -/
def uintMax : Nat := 4294967295

/-- `SIZE_MAX`, which is also `UINT64_MAX`. -/
def sizeMax : Nat := 18446744073709551615

/-- `UINT64_MAX` as a word -/
def wordMax : UInt64 := 0xffffffffffffffff

end Llam
