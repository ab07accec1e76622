import Taskio.Machine

/-!
# `future.h`

What a future answers when it is polled. A future is polled by adding one to its counter and
calling `poll`; it is cleaned up by setting the counter to `SIZE_MAX` and calling `poll`
(`__TASKIO_FUTURE_CLEANUP`).
-/

namespace Taskio

/-- `enum taskio_future_poll`. -/
inductive FuturePoll where
  | undefined
  | pending
  | ready
deriving DecidableEq, Repr

/-- `__TASKIO_FUTURE_CLR_VAL`. -/
def futureClrVal : Nat := 2 ^ 64 - 1

end Taskio
