/-
Module: AnotherWs.Core.Pool
Purpose: The pool of CAsyncs.cpp by itself: acquires with the vector of the caller, and every order in
which handles are acquired, filled, sent and drained.
Trusted boundary: an acquire is one step (it holds the mutex); the log calls are left out.
Main exports: takeHandles, acquireManyInto, PoolAction, poolMachine
-/
import AnotherWs.Core.Asyncs

namespace AnotherWs

/-- The last loop of `acquireManyUvAsync`: the head of the queue goes to the vector and to the back,
`num` times. -/
def takeHandles : Nat → List Nat → List Nat → List Nat × List Nat
  | 0, result, queue => (result, queue)
  | _ + 1, result, [] => (result, [])
  | num + 1, result, id :: rest => takeHandles num (result ++ [id]) (rest ++ [id])

/-- `acquireManyUvAsync` with the vector `result` as it comes in and goes out. -/
def acquireManyInto (num : Nat) (result : List Nat) (pool : CAsyncs) : Bool × List Nat × CAsyncs :=
  if pool.asyncQueue = [] then (false, result, pool)
  else if num > pool.asyncQueue.length then (false, result, pool)
  else
    let maxPos := pool.asyncQueue.length - 1
    let (found, queue) := findWindow pool.asyncs num maxPos (maxPos + 1) 0 pool.asyncQueue
    if found then
      let (result, queue) := takeHandles num [] queue
      (true, result, { pool with asyncQueue := queue })
    else (false, [], { pool with asyncQueue := queue })

/-- What happens to a pool: the two acquires, a send that stores its context in a handle, the
pending flag that goes up and down, and the callback that clears the handle. -/
inductive PoolAction where
  | acquireOne
  | acquireMany (num : Nat) (result : List Nat)
  | fill (id : Nat) (ctx : SendDataContext)
  | flag (id : Nat) (pending : Bool)
  | drain (id : Nat)

/-- Write one handle of the pool. -/
def CAsyncs.store (pool : CAsyncs) (id : Nat) (async : UvAsync) : Option CAsyncs :=
  if id < pool.size then some { pool with asyncs := Function.update pool.asyncs id async } else none

/-- One step of the pool. -/
def CAsyncs.step (pool : CAsyncs) : PoolAction → Option CAsyncs
  | .acquireOne => some (acquireOneUvAsync pool).2
  | .acquireMany num result => some (acquireManyInto num result pool).2.2
  | .fill id ctx => pool.store id { pool.asyncs id with data := some ctx }
  | .flag id pending => pool.store id { pool.asyncs id with pending := pending }
  | .drain id => pool.store id { pool.asyncs id with data := none }

/-- The pool as a machine. -/
def poolMachine : Machines.Machine CAsyncs PoolAction := ⟨CAsyncs.step⟩

end AnotherWs
