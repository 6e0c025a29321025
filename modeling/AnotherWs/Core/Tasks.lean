/-
Module: AnotherWs.Core.Tasks
Purpose: CTask.cpp over CLoop.cpp: any number of threads that post tasks, the threads of libuv's pool
  (deps/libuv/src/threadpool.c) that run them, and the loop thread that calls them back, with start
  and stop. uv_queue_work puts the request into the loop's list active_reqs statement by statement
  and without a lock, and the loop thread takes it out so; uv_async_send sets a pending flag and
  then writes to the eventfd.
Trusted boundary: a statement of QUEUE_INSERT_TAIL and QUEUE_REMOVE on active_reqs is one step, and
  so is what stands between two locks of a mutex; uv_cond_signal wakes one thread that waits, if
  there is one; there are eventfds, and epoll_wait comes back where the counter of the eventfd is
  not zero; the eight bytes that uv__async_send passes to write, of which only the first belongs to
  its string literal, can be read and are the same each time; uv_loop_close refuses a loop with
  handles; nothing else uses the pool.
Main exports: CTask, UvWork, Worker, LoopPoint, Post, TaskManager, TaskAction, taskMachine
-/
import AnotherWs.Lib.Heap
import AnotherWs.Lib.Machine
import AnotherWs.Lib.Queue
import Mathlib.Algebra.Order.Ring.Nat
import Mathlib.Data.Nat.Basic

namespace AnotherWs

open Heaps Queues

/-- `CTask`: the data, and which of the callbacks are not `NULL`. -/
structure CTask where
  data : Nat
  callbackFunction : Bool
  afterCallbackFunction : Bool
deriving DecidableEq

/-- `uv_work_t`, known by the number of the allocation, with its `data`. -/
structure UvWork where
  request : Nat
  data : Option CTask
deriving DecidableEq

/-- A call of a function that the task came with. -/
inductive TaskCall where
  | callback (request : Nat) (data : Nat)
  | afterCallback (request : Nat) (task : CTask)
deriving DecidableEq

/-- What `task_callback` calls. -/
def UvWork.callbackCalls (req : UvWork) : List TaskCall :=
  match req.data with
  | none => []
  | some task => if task.callbackFunction then [.callback req.request task.data] else []

/-- What `after_task_callback` calls. -/
def UvWork.afterCalls (req : UvWork) : List TaskCall :=
  match req.data with
  | none => []
  | some task => if task.afterCallbackFunction then [.afterCallback req.request task] else []

/-- Where a thread of the pool is in `worker`: in front of the lock, in `uv_cond_wait`, awake in it
again, with a request that it has taken, with one whose `work` has returned, and in front of the
write of `uv__async_send`. -/
inductive Worker where
  | awake
  | asleep
  | signalled
  | taken (req : UvWork)
  | called (req : UvWork)
  | sending
deriving DecidableEq

/-- Where the loop thread is: not created, in front of the check of `CLoop::run`, at the head of the
loop of `uv_run`, in `uv__io_poll`, in front of `wq_async` in `uv__async_io`, in front of the lock
of `uv__work_done`, in its loop, between the statements of `uv__req_unregister`, behind it, in front
of `m_sendAsync`, and behind `uv_run`. -/
inductive LoopPoint where
  | created
  | started
  | head
  | poll
  | wqAsync
  | lock
  | workDone
  | unlinking
  | unlinked
  | sendAsync
  | ended
deriving DecidableEq

/-- Where a thread is in `uv_queue_work`: the request points to its neighbours, the last request
points to it, and it is registered. -/
inductive PostPoint where
  | prepared
  | linked
  | registered
deriving DecidableEq

/-- A call of `uv_queue_work`. -/
structure Post where
  req : UvWork
  point : PostPoint
deriving DecidableEq

/-- `CTaskManager` with its loop and the pool. `wqAsync` and `sendAsync` are pending flags,
`eventfd` is the counter that `uv__async_send` writes to, `word` what it writes there, and `owed`
the writes of `shutdown` still to come. `batch` keeps a request until it is called back. `requests`
counts the allocations; `posted`, `begun`, `called` and `finished` record the requests that were
queued, taken from the queue, and given to `task_callback` and `after_task_callback`. -/
structure TaskManager where
  bRunnig : Bool
  sendAsync : Bool
  sendData : Bool
  stopFlag : Bool
  point : LoopPoint
  nthreads : Nat
  workers : Nat → Worker
  idleThreads : Nat
  wq : List UvWork
  loopWq : List UvWork
  wqAsync : Bool
  batch : List UvWork
  activeReqs : Queue Nat
  posts : Nat → Option Post
  eventfd : Nat
  word : Nat
  owed : Nat
  aborted : Bool
  requests : Nat
  heap : Heap Nat
  posted : List UvWork
  begun : List UvWork
  called : List UvWork
  finished : List UvWork
  calls : List TaskCall

/-- `init_threads`: how many threads the pool has, by `UV_THREADPOOL_SIZE`. -/
def initThreads (size : Option Nat) : Nat :=
  let nthreads := size.getD 4
  if nthreads = 0 then 1 else min nthreads 128

/-- A new manager. Its `m_bRunnig` is what the memory held. -/
def TaskManager.init (size : Option Nat) (bRunnig : Bool) (word : Nat) : TaskManager :=
  ⟨bRunnig, false, false, false, .created, initThreads size, fun _ => .awake, 0, [], [], false, [],
    .empty, fun _ => none, 0, word, 0, false, 0, .empty, [], [], [], [], []⟩

/-- The steps. `memory` says whether malloc gives memory, and `wake` which thread a signal wakes. A
post is `postTask`, two steps `register` and `submit`. -/
inductive TaskAction where
  | startup
  | postTask (thread : Nat) (task : Option CTask) (memory : Bool)
  | register (thread : Nat)
  | submit (thread : Nat) (wake : Option Nat)
  | worker (i : Nat)
  | wakeup (i : Nat)
  | loop
  | shutdown
  | write
deriving DecidableEq

/-- Reading or writing a node of `active_reqs`. The head belongs to the loop. -/
def touch (heap : Heap Nat) : Option Nat → Heap Nat
  | none => heap
  | some request => heap.use request

namespace TaskManager

variable (s : TaskManager)

/-- Move one thread of the pool. -/
def setWorker (i : Nat) (w : Worker) : TaskManager :=
  { s with workers := Function.update s.workers i w }

/-- The signal of `post`: it is sent if a thread is idle, and wakes one if one still waits. -/
def Signals : Option Nat → Prop
  | some i => 0 < s.idleThreads ∧ i < s.nthreads ∧ s.workers i = .asleep
  | none => s.idleThreads = 0 ∨ ∀ i < s.nthreads, s.workers i ≠ .asleep

instance decidableSignals : ∀ wake, Decidable (s.Signals wake)
  | some i => inferInstanceAs (Decidable (0 < s.idleThreads ∧ i < s.nthreads ∧ s.workers i = .asleep))
  | none => inferInstanceAs (Decidable (s.idleThreads = 0 ∨ ∀ i < s.nthreads, s.workers i ≠ .asleep))

/-- Move one posting thread. -/
def setPost (thread : Nat) (post : Option Post) : TaskManager :=
  { s with posts := Function.update s.posts thread post }

/-- `CTaskManager::postTask`, up to the pointers of the request in `uv__req_register`. -/
def postTask (thread : Nat) (task : Option CTask) (memory : Bool) : TaskManager :=
  if memory then
    { s with
      heap := s.heap.alloc s.requests
      requests := s.requests + 1
      activeReqs := s.activeReqs.prepare s.requests }.setPost thread
        (some ⟨⟨s.requests, task⟩, .prepared⟩)
  else s

/-- The next statement of `uv__req_register`. -/
def register (thread : Nat) (post : Post) : Option TaskManager :=
  let request := post.req.request
  match post.point with
  | .prepared =>
      some ({ s with
        heap := touch (s.heap.use request) (s.activeReqs.prev (some request))
        activeReqs := s.activeReqs.link request }.setPost thread (some { post with point := .linked }))
  | .linked =>
      some ({ s with activeReqs := s.activeReqs.close request }.setPost thread
        (some { post with point := .registered }))
  | .registered => none

/-- `uv__work_submit` -/
def submit (thread : Nat) (post : Post) (wake : Option Nat) : TaskManager :=
  let s' := { s with wq := s.wq ++ [post.req], posted := s.posted ++ [post.req] }.setPost thread none
  match wake with
  | some i => s'.setWorker i .signalled
  | none => s'

/-- The write of `uv__async_send`. The kernel refuses the largest number, and leaves a counter that
would get too large. -/
def asyncWrite : TaskManager :=
  if s.word = 2 ^ 64 - 1 then { s with aborted := true }
  else if s.eventfd + s.word ≤ 2 ^ 64 - 2 then { s with eventfd := s.eventfd + s.word }
  else s

/-- `worker` between its lock and its unlock. -/
def take (i : Nat) : TaskManager :=
  match s.wq with
  | [] => { s with idleThreads := s.idleThreads + 1 }.setWorker i .asleep
  | req :: rest => { s with wq := rest, begun := s.begun ++ [req] }.setWorker i (.taken req)

/-- `task_callback` -/
def taskCallback (i : Nat) (req : UvWork) : TaskManager :=
  { s with
    heap := s.heap.use req.request
    called := s.called ++ [req]
    calls := s.calls ++ req.callbackCalls }.setWorker i (.called req)

/-- `worker` behind `work`: the request goes to the loop. The write is still to come if the flag was
down; the source holds the lock of the queue until then, which no step here waits for. -/
def giveBack (i : Nat) (req : UvWork) : TaskManager :=
  { s with loopWq := s.loopWq ++ [req], wqAsync := true }.setWorker i
    (if s.wqAsync then .awake else .sending)

/-- The next statement of a thread of the pool. -/
def work (i : Nat) : Option TaskManager :=
  match s.workers i with
  | .asleep => none
  | .awake => some (s.take i)
  | .signalled => some ({ s with idleThreads := s.idleThreads - 1 }.take i)
  | .taken req => some (s.taskCallback i req)
  | .called req => some (s.giveBack i req)
  | .sending => some (s.asyncWrite.setWorker i .awake)

/-- The assertion of `uv__req_unregister`, and its first statement. -/
def unregister (req : UvWork) : TaskManager :=
  if s.activeReqs.next none = none then { s with aborted := true }
  else
    { s with
      heap := touch (s.heap.use req.request) (s.activeReqs.prev (some req.request))
      activeReqs := s.activeReqs.skip req.request
      point := .unlinking }

/-- The second statement of `uv__req_unregister`. -/
def unregisterBack (req : UvWork) : TaskManager :=
  { s with
    heap := touch (s.heap.use req.request) (s.activeReqs.next (some req.request))
    activeReqs := s.activeReqs.skipBack req.request
    point := .unlinked }

/-- `after_task_callback` -/
def afterTaskCallback (req : UvWork) : TaskManager :=
  { s with
    heap := (s.heap.use req.request).free req.request
    finished := s.finished ++ [req]
    calls := s.calls ++ req.afterCalls }

/-- The next statement of the loop thread. In `uv__io_poll` it waits for the eventfd. -/
def loop : Option TaskManager :=
  match s.point with
  | .created | .ended => none
  | .started =>
      some (if s.bRunnig then { s with point := .ended }
        else { s with bRunnig := true, point := .head })
  | .head =>
      some (if s.stopFlag then { s with stopFlag := false, point := .ended }
        else { s with point := .poll })
  | .poll => if 0 < s.eventfd then some { s with eventfd := 0, point := .wqAsync } else none
  | .wqAsync =>
      some (if s.wqAsync then { s with wqAsync := false, point := .lock }
        else { s with point := .sendAsync })
  | .lock => some { s with batch := s.loopWq, loopWq := [], point := .workDone }
  | .workDone =>
      match s.batch with
      | [] => some { s with point := .sendAsync }
      | req :: _ => some (s.unregister req)
  | .unlinking =>
      match s.batch with
      | [] => none
      | req :: _ => some (s.unregisterBack req)
  | .unlinked =>
      match s.batch with
      | [] => none
      | req :: rest => some ({ s with batch := rest, point := .workDone }.afterTaskCallback req)
  | .sendAsync =>
      some { s with
        sendAsync := false
        stopFlag := s.stopFlag || s.sendAsync && s.sendData
        point := .head }

/-- `CLoop::stop`, as `CTaskManager::shutdown` calls it, up to the write of `uv__async_send`. -/
def shutdown : TaskManager :=
  if s.bRunnig then
    { s with
      bRunnig := false, sendData := true, sendAsync := true
      owed := if s.sendAsync then s.owed else s.owed + 1 }
  else s

/-- One step of a process that runs. `wakeup` is a thread that wakes up in `uv_cond_wait` by itself,
`write` one that `shutdown` owes. -/
def act (s : TaskManager) : TaskAction → Option TaskManager
  | .startup => if s.point = .created then some { s with point := .started } else none
  | .postTask thread task memory =>
      if s.posts thread = none then some (s.postTask thread task memory) else none
  | .register thread => (s.posts thread).bind (s.register thread)
  | .submit thread wake =>
      match s.posts thread with
      | some post =>
          if post.point = .registered ∧ s.Signals wake then some (s.submit thread post wake) else none
      | none => none
  | .worker i => if i < s.nthreads then s.work i else none
  | .wakeup i =>
      if i < s.nthreads ∧ s.workers i = .asleep then some (s.setWorker i .signalled) else none
  | .loop => s.loop
  | .shutdown => some s.shutdown
  | .write => if 0 < s.owed then some { s.asyncWrite with owed := s.owed - 1 } else none

/-- One step. Where the process has been aborted there is none. -/
def step (s : TaskManager) (a : TaskAction) : Option TaskManager := if s.aborted then none else s.act a

end TaskManager

/-- The task manager as a machine. -/
def taskMachine : Machines.Machine TaskManager TaskAction := ⟨TaskManager.step⟩

end AnotherWs
