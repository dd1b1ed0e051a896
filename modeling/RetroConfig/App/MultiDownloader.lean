import RetroConfig.Library.Transition
import Mathlib.Logic.Function.Basic
import Mathlib.Algebra.Group.Nat.Defs
import Mathlib.Data.Nat.Log
import Mathlib.Tactic.Common

/-!
# `MultiDownloader`: a download in blocks

A `MultiDownloader` (`lib/utils/multi_downloader.dart`) asks a server for the length of a file,
requests the blocks of the file that are not on disk yet, some at a time, and puts the blocks
together when all of them are there. Its functions are asynchronous: each of them runs until an
`await`, and goes on when the answer has come. Between two such points nothing else runs.

The state has the fields of the object, what is on disk, and the activities that wait: a `start` for
the answer to `HEAD`, a request for a block, a pass over the files of the blocks. An operation
is a call of `start` or `stop`, or the answer that an activity waits for. Operations on files
succeed, and the directory of the blocks is there once it was made; what reports of progress read
is left out.
-/

namespace RetroConfig.MultiDownloader

/-! ## Ranges -/

/-- `_BlockSize`. -/
def blockSize : Nat := 1024 * 1024 * 2

/-- An `int`: a number of 64 bits. -/
def int64 (x : Int) : Int := x.bmod (2 ^ 64)

/-- The double nearest to a natural number, of two the one with an even significand. -/
def toDouble (n : Nat) : Nat :=
  let unit := 2 ^ (Nat.log2 n - 52)
  let significand := n / unit
  let rest := n % unit
  if 2 * rest < unit ∨ 2 * rest = unit ∧ significand % 2 = 0 then significand * unit
  else (significand + 1) * unit

/-- The block count of a total length: the ceiling of a division of doubles. -/
def blockCountOf (totalLength : Nat) : Nat := (toDouble totalLength + (blockSize - 1)) / blockSize

structure Range where
  (start end' : Int)
  deriving DecidableEq

def Range.length (r : Range) : Int := r.end' - r.start

/-- The range of a `DownloadTask`. -/
def range (totalLength : Nat) (index : Nat) : Range :=
  ⟨int64 (index * blockSize), min (int64 ((index + 1) * blockSize)) totalLength⟩

/-! ## State -/

/-- A `DownloadTask`: the object and the index of its block. -/
structure Task where
  serial : Nat
  index : Nat
  deriving DecidableEq

/-- How far a `GET` is: it waits for the response, has received a part of the body, makes the parent
directory of the file, or writes the file. -/
inductive Phase where
  | waiting
  | receiving (body : List UInt8)
  | saving (body : List UInt8)
  | writing (body : List UInt8)
  deriving DecidableEq

/-- `DownloadTask.start`, with the range it asks for. -/
structure Request where
  task : Task
  range : Range
  phase : Phase
  deriving DecidableEq

/-- What waits. -/
inductive Activity where
  /-- `start`, for the answer to `HEAD`. -/
  | head
  /-- `start`, until the directory is empty and has its index file. -/
  | clear
  /-- `_freshQueue`, for the `stat` of a block; made by `start`, or when a test has failed. -/
  | build (next : Nat) (restart : Bool)
  /-- `_testComplete`, for the file of a block; the output has been written up to an offset. -/
  | test (next offset : Nat)
  | direct (phase : Phase)
  | request (r : Request)
  deriving DecidableEq

/-- The index file. -/
structure Index where
  total : Option Nat
  eTag : Option String
  deriving DecidableEq

/-- The output file, and the files in the directory of the blocks. -/
structure Disk where
  output : Option (List UInt8)
  index : Option Index
  blocks : Nat → Option (List UInt8)

def noFiles : Disk := ⟨none, none, fun _ => none⟩

/-- A call of `onComplete`, from the block-wise path or not, or of `onFailed`. -/
inductive Callback where
  | onComplete (blocks : Bool)
  | onFailed (message : String)
  deriving DecidableEq

/-- A `MultiDownloader`. `subscription` is the field `_subscription` of the tasks: the activity that
listens. -/
structure State where
  maxThreading : Nat
  blockCount : Option Nat
  totalLength : Option Nat
  eTag : Option String
  parting : Bool
  queue : Option (List Task)
  downloading : List Task
  lastError : Option String
  failedCount : Nat
  isComplete : Bool
  isDownloading : Bool
  subscription : Task → Option Nat
  disk : Disk
  activities : Nat → Option Activity
  nextId : Nat
  calls : List Callback

namespace State

/-! ## The object -/

/-- An activity goes on, or ends. -/
def put (s : State) (id : Nat) (a : Option Activity) : State :=
  { s with activities := Function.update s.activities id a }

def spawn (s : State) (a : Activity) : State :=
  { s with activities := Function.update s.activities s.nextId (some a), nextId := s.nextId + 1 }

/-- `_downloading.add(task)` and `task.start()`; without a total length there is no range, and
`task.start()` fails. -/
def launch (s : State) (task : Task) : State :=
  let s := { s with downloading := if task ∈ s.downloading then s.downloading
                                   else s.downloading ++ [task] }
  match s.totalLength with
  | none => s
  | some total => s.spawn (.request ⟨task, range total task.index, .waiting⟩)

/-- The loop of `_checkDownload`. -/
def checkLoop (s : State) : List Task → State
  | [] => { s with queue := some [] }
  | task :: rest =>
    if s.downloading.length + s.failedCount < s.maxThreading then (s.launch task).checkLoop rest
    else { s with queue := some (task :: rest) }

/-- `_checkDownload`. -/
def checkDownload (s : State) : State :=
  match s.queue with
  | none => s
  | some q => s.checkLoop q

/-- `start`, until its first answer. -/
def start (s : State) : State :=
  if s.isDownloading then s else { s with isDownloading := true }.spawn .head

/-- The end of `start`: `multiDownload` or `directDownload`. -/
def download (s : State) (id : Nat) : State :=
  if s.parting then (s.put id none).checkDownload else s.put id (some (.direct .waiting))

/-- The loop of `_freshQueue` from a block on, and what is done after it. -/
def buildFrom (s : State) (id : Nat) (restart : Bool) (i : Nat) : State :=
  match s.blockCount with
  | none => s.put id none
  | some n =>
    if i < n then s.put id (some (.build i restart))
    else if restart then (s.put id none).start
    else s.download id

/-- `_freshQueue`. -/
def freshQueue (s : State) (id : Nat) (restart : Bool) : State :=
  match s.totalLength with
  | none => s.put id none
  | some total =>
    { s with blockCount := some (blockCountOf total), queue := some [] }.buildFrom id restart 0

/-- `_queue.add(DownloadTask(i, this))`. -/
def addTask (s : State) (i : Nat) : State :=
  { s with queue := s.queue.map (· ++ [⟨s.nextId, i⟩]), nextId := s.nextId + 1 }

/-- `_freshQueue` has the `stat` of a block. -/
def stated (s : State) (id i : Nat) (restart : Bool) : State :=
  (if s.disk.blocks i = none then s.addTask i else s).buildFrom id restart (i + 1)

/-- `start` has the answer to `HEAD`. There is no directory if the file was there from the start. -/
def answered (s : State) (id : Nat) (eTag acceptRanges : Option String) (contentLength : Option Nat) :
    State :=
  let s := { s with parting := decide (acceptRanges = some "bytes") }
  if s.eTag = none ∨ s.eTag ≠ eTag then
    let s := { s with eTag := eTag, totalLength := contentLength }
    if s.isComplete then s.put id none else s.put id (some .clear)
  else s.download id

/-- The directory is made anew, with its index file. -/
def emptyDirectory (s : State) : State :=
  { s with disk := { s.disk with index := some ⟨s.totalLength, s.eTag⟩, blocks := fun _ => none } }

/-- `start` goes on with the empty directory. -/
def cleared (s : State) (id : Nat) : State :=
  if s.parting then s.emptyDirectory.freshQueue id false else s.emptyDirectory.download id

def writeOutput (s : State) (bytes : List UInt8) : State :=
  { s with disk := { s.disk with output := some bytes } }

/-- What is in a file when something is written at an offset. -/
def writeAt (file : List UInt8) (offset : Nat) (bytes : List UInt8) : List UInt8 :=
  file.take offset ++ List.replicate (offset - file.length) 0 ++ bytes ++
    file.drop (offset + bytes.length)

/-- The loop of `_testComplete` from a block on, and what is done if it succeeds. -/
def testFrom (s : State) (id i offset : Nat) : State :=
  match s.blockCount with
  | none => s.put id none
  | some n =>
    if i < n then s.put id (some (.test i offset))
    else { s.put id none with isDownloading := false, calls := s.calls ++ [.onComplete true] }

/-- `output.addStream`, at an offset. -/
def addStream (s : State) (offset : Nat) (bytes : List UInt8) : State :=
  { s with disk := { s.disk with output := s.disk.output.map (writeAt · offset bytes) } }

/-- `_testComplete` looks at the file of a block. -/
def tested (s : State) (id i offset : Nat) : State :=
  match s.disk.blocks i with
  | none => s.freshQueue id true
  | some bytes => (s.addStream offset bytes).testFrom id (i + 1) (offset + bytes.length)

/-- `_downloading.remove(task)`. -/
def remove (s : State) (task : Task) : State := { s with downloading := s.downloading.erase task }

/-- `onComplete` of a task. -/
def completed (s : State) (id : Nat) (task : Task) : State :=
  let s := s.remove task
  if s.queue = some [] then
    if s.downloading = [] then (s.writeOutput []).testFrom id 0 0
    else s.put id none
  else ({ s with failedCount := 0 }.put id none).checkDownload

/-- A task ends with a failure. -/
def noteFailure (s : State) (id : Nat) (message : String) : State :=
  { s.put id none with lastError := some message, failedCount := s.failedCount + 1 }

/-- `_queue.add(task)`. -/
def requeue (s : State) (task : Task) : State := { s with queue := s.queue.map (· ++ [task]) }

/-- `onFailed` of a task. -/
def failed (s : State) (id : Nat) (task : Task) (message : String) : State :=
  let s := s.noteFailure id message
  if s.failedCount > 5 then { s with calls := s.calls ++ [.onFailed message] }
  else (s.requeue task).checkDownload

/-! ## Answers -/

inductive Answer where
  | head (eTag acceptRanges : Option String) (contentLength : Option Nat)
  | status (code : Nat)
  | chunk (bytes : List UInt8)
  | done
  /-- The request, or its stream, fails. -/
  | error (message : String)
  /-- An operation on files has been done. -/
  | filed
  deriving DecidableEq

def setPhase (s : State) (id : Nat) (r : Request) (phase : Phase) : State :=
  s.put id (some (.request { r with phase := phase }))

def writeBlock (s : State) (i : Nat) (bytes : List UInt8) : State :=
  { s with disk := { s.disk with blocks := Function.update s.disk.blocks i (some bytes) } }

def listen (s : State) (task : Task) (id : Nat) : State :=
  { s with subscription := Function.update s.subscription task (some id) }

/-- `DownloadTask.start` goes on. -/
def requestStep (s : State) (id : Nat) (r : Request) (answer : Answer) : State :=
  match r.phase, answer with
  | .waiting, .status code =>
    if 200 ≤ code ∧ code < 300 then (s.listen r.task id).setPhase id r (.receiving [])
    else s.failed id r.task ("Status code " ++ toString code)
  | .waiting, .error message => s.failed id r.task message
  | .receiving body, .chunk bytes => s.setPhase id r (.receiving (body ++ bytes))
  | .receiving body, .done => s.setPhase id r (.saving body)
  | .receiving _, .error message => s.failed id r.task message
  | .saving body, .filed =>
    if body = [] then s.failed id r.task "Response body is empty."
    else (s.writeBlock r.task.index []).setPhase id r (.writing body)
  | .writing body, .filed => (s.writeBlock r.task.index body).completed id r.task
  | _, _ => s

def directFailed (s : State) (id : Nat) (message : String) : State :=
  { s.put id none with isDownloading := false, calls := s.calls ++ [.onFailed message] }

/-- `directDownload` goes on. -/
def directStep (s : State) (id : Nat) (phase : Phase) (answer : Answer) : State :=
  match phase, answer with
  | .waiting, .status code =>
    if 200 ≤ code ∧ code < 300 then s.put id (some (.direct (.receiving [])))
    else s.directFailed id ("Status code " ++ toString code)
  | .waiting, .error message => s.directFailed id message
  | .receiving body, .chunk bytes => s.put id (some (.direct (.receiving (body ++ bytes))))
  | .receiving body, .done => s.put id (some (.direct (.saving body)))
  | .receiving _, .error message => s.directFailed id message
  | .saving body, .filed => (s.writeOutput []).put id (some (.direct (.writing body)))
  | .writing body, .filed =>
    { (s.writeOutput body).put id none with
      isDownloading := false, calls := s.calls ++ [.onComplete false] }
  | _, _ => s

/-- An activity has its answer. -/
def resume (s : State) (id : Nat) (answer : Answer) : State :=
  match s.activities id, answer with
  | some .head, .head eTag acceptRanges contentLength => s.answered id eTag acceptRanges contentLength
  | some .head, .error _ => s.put id none
  | some .clear, .filed => s.cleared id
  | some (.build i restart), .filed => s.stated id i restart
  | some (.test i offset), .filed => s.tested id i offset
  | some (.direct phase), answer => s.directStep id phase answer
  | some (.request r), answer => s.requestStep id r answer
  | _, _ => s

/-! ## `stop` -/

/-- `_subscription.cancel()`: the activity does not go on if it is still receiving. -/
def cancel (s : State) (id : Nat) : State :=
  match s.activities id with
  | some (.request ⟨_, _, .receiving _⟩) => s.put id none
  | _ => s

/-- The loop of `stop`. It breaks off at a task that has not listened yet. -/
def stopLoop (s : State) : List Task → State
  | [] => { s with downloading := [] }
  | task :: rest =>
    match s.subscription task with
    | none => s
    | some id =>
      { s.cancel id with queue := (s.cancel id).queue.map (task :: ·) }.stopLoop rest

/-- `stop`. -/
def stop (s : State) : State :=
  if s.isDownloading then { s with isDownloading := false }.stopLoop s.downloading else s

/-! ## Runs -/

inductive Op where
  | start
  | stop
  | resume (id : Nat) (answer : Answer)
  deriving DecidableEq

def next (s : State) : Op → State
  | .start => s.start
  | .stop => s.stop
  | .resume id answer => s.resume id answer

end State

/-- The blocks that `_freshQueue` finds missing. -/
def missing (blocks : Nat → Option (List UInt8)) (n : Nat) : List Nat :=
  (List.range n).filter (fun i => blocks i = none)

/-- An object before `prepare`. -/
def created (maxThreading : Nat) (disk : Disk) : State :=
  ⟨maxThreading, none, none, none, false, none, [], none, 0, false, false, fun _ => none, disk,
    fun _ => none, 0, []⟩

/-- `prepare`, in the constructor: `_freshQueue` goes through the files before anything else is
done. -/
def prepare (maxThreading : Nat) (disk : Disk) : State :=
  if disk.output.isSome then { created maxThreading disk with isComplete := true }
  else
    match disk.index with
    | none => created maxThreading disk
    | some ⟨none, eTag⟩ => { created maxThreading disk with eTag := eTag }
    | some ⟨some total, eTag⟩ =>
      { created maxThreading disk with
        totalLength := some total
        eTag := eTag
        blockCount := some (blockCountOf total)
        queue := some ((missing disk.blocks (blockCountOf total)).map fun i => ⟨i, i⟩)
        nextId := blockCountOf total }

end RetroConfig.MultiDownloader
