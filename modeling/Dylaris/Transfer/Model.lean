import Dylaris.Library.Machine
import Dylaris.Library.Numbered

/-!
# The node's multipart upload

`uploadMultipartPaced` streams an archive to the object storage.  One loop (`uploadParts`) cuts the
archive into parts of the size that Core has chosen, and hands each part to a goroutine of its own
(`putPart`), which asks Core for a signed URL and uploads the part, three times at most.  When all have
returned, the node asks Core to complete the upload.

The model is a machine whose steps are the single operations of the loop and of the goroutines.  A
buffer is a cell of a heap: the loop fills it, the goroutine sends from it and puts it back on the
channel, and the next part is read into the same cell.

What the environment decides is in the label of a step: what a call to the archive's `Read` returns
(any bytes that fit, with or without an error, so this is every reader), what Core answers, how a `PUT`
turns out, and when the caller's context is cancelled.  A signed URL stores a part under the number it
was signed for, so the map of URLs is the list of those numbers.  A `PUT` sends the part's bytes as they
are when it is made; one that fails may still arrive later.  A wait may end at any
moment.
-/

set_option autoImplicit false

namespace Dylaris.Transfer

open Machine (Outcome)

/-- `maxBufferedParts`. -/
def maxBufferedParts : Nat := 2

/-- `partURLBatch`. -/
def partURLBatch : Nat := 4

/-- `maxPartNumber`. -/
def maxPartNumber : Nat := 10000

/-- `partUploadAttempts`. -/
def partUploadAttempts : Nat := 3

/-- `maxNodePartSize`. -/
def maxNodePartSize : Int := 256 * 1024 * 1024

/-- `partBatch`: the parts whose URLs are asked for together. -/
def partBatch (first : Nat) : List Nat :=
  (List.range' first partURLBatch).filter (· ≤ maxPartNumber)

/-- `ctx.Err()` of a cancelled context. -/
def contextCanceled : String := "context canceled"

/-! ## Reading -/

/-- An error of a reader. -/
inductive ReadError
  | eof | unexpectedEOF
  | other (message : String)
deriving DecidableEq, Repr

/-- How a call to `io.ReadFull` ends. -/
inductive Filled
  /-- The buffer is full; whatever error came with the last bytes is dropped. -/
  | full
  /-- There was nothing to read. -/
  | nothing
  /-- `io.ErrUnexpectedEOF`. -/
  | short
  | error (message : String)
deriving DecidableEq, Repr

/-- `io.ReadFull` after a `Read`: `n` bytes are in the buffer, and `err` came with the last of them.
Without a result it reads on. -/
def readFull (partSize n : Nat) (err : Option ReadError) : Option Filled :=
  if partSize ≤ n then some .full
  else match err with
    | none => none
    | some .eof => some (if n = 0 then .nothing else .short)
    | some .unexpectedEOF => some .short
    | some (.other message) => some (.error message)

/-- A `Read` puts its bytes into the buffer behind the first `n`. -/
def writeAt (n : Nat) (chunk buf : List UInt8) : List UInt8 :=
  buf.take n ++ chunk ++ buf.drop (n + chunk.length)

/-! ## The state -/

/-- Where a goroutine of `putPart` is. -/
inductive Putting
  /-- In `url`, at the map of URLs. -/
  | lookup
  /-- In `url`, at `partURLs`, asking for the URLs of `batch`. -/
  | request (attempt : Nat) (batch : List Nat)
  /-- In `put`, with a URL. -/
  | put (attempt : Nat)
  /-- An attempt has failed: at the check of the context. -/
  | check (attempt : Nat) (err : String)
  /-- At the wait before the next attempt. -/
  | backoff (attempt : Nat)
  /-- At `fail`, first at the error, then at `cancel`. -/
  | fail (err : String)
  | cancel
  /-- At `bufs <- full`. -/
  | release
  | done
deriving DecidableEq, Repr

/-- A goroutine that uploads one part: the first `size` bytes of a buffer. -/
structure Worker where
  num : Nat
  buf : Nat
  size : Nat
  at' : Putting
deriving DecidableEq, Repr

/-- Where `uploadMultipartPaced` is. -/
inductive Phase
  /-- At the first `partURLs`. -/
  | open
  /-- At the loop's `select`, then at its check of the context, with the buffer received. -/
  | head
  | check (buf : Option Nat)
  /-- In `io.ReadFull`, with `n` bytes read into the buffer. -/
  | read (buf n : Nat)
  /-- At `fail`, first at the error, then at `cancel`. -/
  | fail (err : String)
  | cancel
  /-- At `wg.Wait()`. -/
  | wait
  | beforeComplete
  /-- In `Request` for the completion, at its first or second attempt. -/
  | complete (second : Bool)
  | finished (result : Except String Int)
deriving Repr

/-- The upload. -/
structure Upload where
  phase : Phase
  partSize : Nat
  /-- The parts for which a signed URL is at hand. -/
  urls : List Nat
  heap : List (List UInt8)
  /-- The channel of buffers; `none` is one that is not allocated yet. -/
  bufs : List (Option Nat)
  /-- The goroutines started so far, one per part, so `part` is their number. -/
  workers : List Worker
  firstErr : Option String
  /-- The context of `uploadParts` is done. -/
  ctxDone : Bool
  callerDone : Bool
  /-- What the calls to the archive's `Read` have returned. -/
  reads : List (List UInt8 × Option ReadError)
  /-- The parts in the storage, by number. -/
  stored : List (Nat × List UInt8)
  /-- The uploads that have failed and may still arrive. -/
  inFlight : List (Nat × List UInt8)
  /-- The request to complete the upload has been sent. -/
  completeSent : Bool
deriving Repr

namespace Upload

/-- The call of `uploadMultipartPaced`. -/
def start : Upload :=
  ⟨.open, 0, [], [], List.replicate maxBufferedParts none, [], none, false, false, [], [], [], false⟩

variable (s : Upload)

/-- The contents of a buffer. -/
def buffer (b : Nat) : List UInt8 := s.heap[b]?.getD []

/-- The body a goroutine sends. -/
def body (w : Worker) : List UInt8 := (s.buffer w.buf).take w.size

/-! ## The loop -/

/-- The first `partURLs`, and the context of `uploadParts`. -/
def openUpload : Except String (Int × List Nat) → Upload
  | .error err => { s with phase := .finished (.error err) }
  | .ok (partSize, urls) =>
    if partSize ≤ 0 ∨ maxNodePartSize < partSize then
      { s with phase := .finished (.error ("Core chose a part size of " ++ toString partSize ++
          " bytes, outside 1.." ++ toString maxNodePartSize)) }
    else { s with phase := .head, partSize := partSize.toNat, urls := urls, ctxDone := s.callerDone }

/-- The `select`: a buffer comes free, or the context is done. -/
def select (stopped : Bool) : Option Upload :=
  if stopped then
    if s.ctxDone then some { s with phase := .check none } else none
  else match s.bufs with
    | buf :: bufs => some { s with phase := .check buf, bufs := bufs }
    | [] => none

/-- The check of the context, and the buffer's allocation on first use. -/
def checkContext (buf : Option Nat) : Upload :=
  if s.ctxDone then { s with phase := .wait }
  else match buf with
    | some b => { s with phase := .read b 0 }
    | none => { s with
        phase := .read s.heap.length 0
        heap := s.heap ++ [List.replicate s.partSize 0] }

/-- A part has been read, the last one if the archive ended in it. -/
def partRead (b n : Nat) (last : Bool) : Upload :=
  if s.workers.length = maxPartNumber then
    { s with phase := .fail ("archive is larger than " ++ toString maxPartNumber ++ " parts of " ++
        toString s.partSize ++ " bytes") }
  else
    { s with
      phase := if last then .wait else .head
      workers := s.workers ++ [⟨s.workers.length + 1, b, n, .lookup⟩] }

/-- A call to the archive's `Read` for the buffer, of which `n` bytes are read. -/
def readInto (b n : Nat) (chunk : List UInt8) (err : Option ReadError) : Upload :=
  { s with
    phase := .read b (n + chunk.length)
    heap := s.heap.modify b (writeAt n chunk)
    reads := s.reads ++ [(chunk, err)] }

/-- A call to `Read`, and what the loop does when `io.ReadFull` returns. -/
def read (b n : Nat) (chunk : List UInt8) (err : Option ReadError) : Option Upload :=
  if s.partSize < n + chunk.length then none
  else
    let s' := s.readInto b n chunk err
    match readFull s.partSize (n + chunk.length) err with
    | none => some s'
    | some .full => some (s'.partRead b (n + chunk.length) false)
    | some .short => some (s'.partRead b (n + chunk.length) true)
    | some .nothing => some { s' with phase := .wait }
    | some (.error message) => some { s' with phase := .fail ("read archive: " ++ message) }

/-- `fail`, at the error: the first one is kept. -/
def fail (err : String) : Upload := { s with firstErr := some (s.firstErr.getD err) }

/-- `wg.Wait()` returns, and `uploadParts` with it. -/
def waitAll : Option Upload :=
  if ∀ w ∈ s.workers, w.at' = .done then
    match s.firstErr with
    | some err => some { s with phase := .finished (.error err), ctxDone := true }
    | none =>
      if s.workers = [] then
        some { s with
          phase := .finished (.error "the archive produced no bytes")
          ctxDone := true }
      else some { s with phase := .beforeComplete, ctxDone := true }
  else none

end Upload

/-- How an attempt of `Request` turns out. -/
inductive Attempt
  /-- No Core is connected that has not been tried. -/
  | noCore
  /-- The connection is closed, or `send` fails. -/
  | unsent (err : String)
  /-- No answer in time, the connection lost, the context done, or an `OpError`. -/
  | unanswered (err : String)
  | answered (result : Except String Int)
deriving Repr

namespace Upload

variable (s : Upload)

/-- An attempt has failed: a second one follows, unless the context is done. -/
def retryComplete (second : Bool) (err : String) : Upload :=
  { s with phase := if s.callerDone ∨ second then
      .finished (.error ("ask Core to complete the upload: " ++ err)) else .complete true }

/-- An attempt of `Request` for the completion.  It sends before it looks at the context. -/
def complete (second : Bool) : Attempt → Upload
  | .noCore => { s with phase := .finished (.error ("ask Core to complete the upload: " ++
      if second then "no other Core to retry on" else "no connection to Core")) }
  | .unsent err => s.retryComplete second err
  | .unanswered err => { s with completeSent := true }.retryComplete second err
  | .answered (.error err) => { s with
      phase := .finished (.error ("Core could not complete the upload: " ++ err))
      completeSent := true }
  | .answered (.ok size) => { s with phase := .finished (.ok size), completeSent := true }

end Upload

/-- A move of `uploadMultipartPaced` itself. -/
inductive MainStep
  | openUpload (answer : Except String (Int × List Nat))
  | select (stopped : Bool)
  | check
  | read (chunk : List UInt8) (err : Option ReadError)
  | fail
  | cancel
  | wait
  | beforeComplete (refusal : Option String)
  | complete (a : Attempt)
deriving Repr

/-- The steps of `uploadMultipartPaced` itself. -/
def mainStep (s : Upload) : Phase → MainStep → Option Upload
  | .open, .openUpload answer => some (s.openUpload answer)
  | .head, .select stopped => s.select stopped
  | .check buf, .check => some (s.checkContext buf)
  | .read b n, .read chunk err => s.read b n chunk err
  | .fail err, .fail =>
    -- Who records the first error cancels the context.
    some { s.fail err with phase := if s.firstErr = none then .cancel else .wait }
  | .cancel, .cancel => some { s with phase := .wait, ctxDone := true }
  | .wait, .wait => s.waitAll
  | .beforeComplete, .beforeComplete refusal =>
    some { s with phase := match refusal with
      | some err => .finished (.error err)
      | none => .complete false }
  | .complete second, .complete a => some (s.complete second a)
  | _, _ => none

/-! ## The goroutines -/

/-- A move of a goroutine of `putPart`. -/
inductive PutStep
  | lookup
  | request (answer : Except String (Int × List Nat))
  | put (o : Outcome) (err : String)
  | check
  | backoff (stopped : Bool)
  | fail
  | cancel
  | release
deriving Repr

/-- The steps of `putPart` and of the goroutine around it. -/
def putStep (s : Upload) (w : Worker) : Putting → PutStep → Option (Upload × Putting)
  | .lookup, .lookup =>
    if w.num ∈ s.urls then some ({ s with urls := s.urls.filter (· ≠ w.num) }, .put 1)
    else some (s, .request 1 (partBatch w.num))
  | .request attempt _, .request answer =>
    match answer with
    | .error err => some (s, .check attempt err)
    | .ok (size, urls) =>
      if size ≠ s.partSize then
        some (s, .check attempt ("Core changed the part size from " ++ toString s.partSize ++ " to " ++
          toString size ++ " during the upload"))
      else if w.num ∉ urls then
        some (s, .check attempt ("Core signed no URL for part " ++ toString w.num))
      else some ({ s with urls := s.urls ++ urls.filter (· ≠ w.num) }, .put attempt)
  | .put attempt, .put o err =>
    match o with
    | .ok => some ({ s with stored := Numbered.insert w.num (s.body w) s.stored }, .release)
    | .lost => some ({ s with stored := Numbered.insert w.num (s.body w) s.stored }, .check attempt err)
    | .failed => some ({ s with inFlight := s.inFlight ++ [(w.num, s.body w)] }, .check attempt err)
  | .check attempt err, .check =>
    if s.ctxDone then some (s, .fail contextCanceled)
    else if attempt < partUploadAttempts then some (s, .backoff (attempt + 1))
    else some (s, .fail ("part " ++ toString w.num ++ ": " ++ err))
  | .backoff attempt, .backoff stopped =>
    if stopped then if s.ctxDone then some (s, .fail contextCanceled) else none
    else some (s, .request attempt [w.num])
  | .fail err, .fail => some (s.fail err, if s.firstErr = none then .cancel else .release)
  | .cancel, .cancel => some ({ s with ctxDone := true }, .release)
  | .release, .release => some ({ s with bufs := s.bufs ++ [some w.buf] }, .done)
  | _, _ => none

/-! ## The machine -/

/-- A step of the upload. -/
inductive Label
  /-- The caller's context is cancelled. -/
  | cancel
  /-- A failed `PUT` arrives after all. -/
  | land (n : Nat)
  | main (a : MainStep)
  | worker (n : Nat) (a : PutStep)
deriving Repr

/-- The steps of the upload. -/
def Upload.step (s : Upload) : Label → Option Upload
  | .cancel => some { s with ctxDone := true, callerDone := true }
  | .land n => s.inFlight[n]?.map fun p ↦ { s with stored := Numbered.insert p.1 p.2 s.stored }
  | .main a => mainStep s s.phase a
  | .worker n a => s.workers[n]?.bind fun w ↦ (putStep s w w.at' a).map fun (s', at') ↦
      { s' with workers := s.workers.set n { w with at' := at' } }

end Dylaris.Transfer
