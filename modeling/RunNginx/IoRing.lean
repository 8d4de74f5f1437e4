import Mathlib.Data.PNat.Defs
import RunNginx.Lib.ByteString
import RunNginx.Lib.DeviceQueue
import RunNginx.Lib.Table

/-!
# The io_uring file-read service

A worker owns one ring and reads one file after the other: it submits an `openat`, waits,
takes a completion, submits a `read`, waits, and takes a completion.  It never looks at
the `user_data` of what it takes.  Every byte of a buffer is modelled together with the
file it was read from, and every buffer and path of a request by the request's own number.

`reads_own_path` is the condition under which a request is answered from its own file:
that no wait of an earlier request was cut short.
-/

namespace RunNginx
namespace IoRing

open ByteString DeviceQueue

def maxIoringFileBytes : Nat := 4 * 1024 * 1024

/-- The entries of a submission queue. -/
def ringEntries : Nat := 64

/-- A byte of a buffer, and the file it was read from. -/
structure Cell where
  value : UInt8
  source : Option Bytes
deriving DecidableEq, Repr

/-- `io::Error`. -/
inductive IoError where
  | os (errno : Nat)
  | invalidInput (message : Bytes)
  | other (message : Bytes)
deriving DecidableEq, Repr

inductive Op where
  | openAt (path : Bytes)
  | read (fd buffer size : Nat)
deriving DecidableEq, Repr

structure Sqe where
  op : Op
  userData : Nat
deriving DecidableEq, Repr

structure Cqe where
  userData : Nat
  result : Int
deriving DecidableEq, Repr

/-- The descriptors that are open and the buffers of the requests. -/
structure Memory where
  files : Table Nat Bytes
  buffers : Table Nat (List Cell)
  /-- The number of the next request. -/
  next : Nat

abbrev Ring := Queue Sqe Cqe Memory

def Ring.new : Ring :=
  ⟨[], [], [], ⟨∅, ∅, 0⟩⟩

/-- How the kernel ends an operation. -/
structure Reply where
  errno : Option ℕ+
  /-- The descriptor of an `openat`. -/
  fd : Nat
  /-- What the file has at the place a `read` is at. -/
  data : Bytes

/-- A descriptor that is not in use. -/
def unusedFd (files : Table Nat Bytes) (wanted : Nat) : Nat :=
  if (files.lookup wanted).isSome then (files.keys.foldl max 0) + 1 else wanted

/-- `EBADF`. -/
def badDescriptor : ℕ+ := 9

/-- The bytes of a file. -/
def cellsOf (path data : Bytes) : List Cell :=
  data.map fun b => ⟨b, some path⟩

def Memory.buffer (m : Memory) (n : Nat) : List Cell :=
  (m.buffers.lookup n).getD []

/-- The kernel's side of an operation. -/
def finish (m : Memory) (s : Sqe) (reply : Reply) : Memory × Cqe :=
  match reply.errno, s.op with
  | some e, _ => (m, ⟨s.userData, -(e : Nat)⟩)
  | none, .openAt path =>
      let fd := unusedFd m.files reply.fd
      ({ m with files := m.files.insert fd path }, ⟨s.userData, fd⟩)
  | none, .read fd n size =>
      match m.files.lookup fd with
      | none => (m, ⟨s.userData, -(badDescriptor : Nat)⟩)
      | some path =>
          let data := reply.data.take size
          let buffer := cellsOf path data ++ (m.buffer n).drop data.length
          ({ m with buffers := m.buffers.insert n buffer }, ⟨s.userData, data.length⟩)

/-- A request, and what the system does while it is served. -/
structure Request where
  path : Bytes
  /-- The length that `std::fs::metadata` reports. -/
  metadata : Except IoError Nat
  /-- What `std::fs::read` gives. -/
  contents : Except IoError Bytes
  openWait : Wait Reply ℕ+
  readWait : Wait Reply ℕ+

def closeFd (fd : Nat) (ring : Ring) : Ring :=
  { ring with device := { ring.device with files := ring.device.files.erase fd } }

/-- `vec![0u8; size]`. -/
def alloc (size : Nat) (ring : Ring) : Ring :=
  let m := ring.device
  { ring with
    device :=
      { m with
        buffers := m.buffers.insert m.next (List.replicate size ⟨0, none⟩)
        next := m.next + 1 } }

/-- The `openat` half of a request. -/
def openFile (path : Bytes) (w : Wait Reply ℕ+) (ring : Ring) : Except IoError Nat × Ring :=
  match ring.push ringEntries ⟨.openAt path, 1⟩ with
  | none => (.error (.other (ascii "ring full")), ring)
  | some ring =>
      match ring.submitAndWait finish w with
      | (some e, ring) => (.error (.os e), ring)
      | (none, ring) =>
          match ring.pop with
          | none => (.error (.other (ascii "no CQE")), ring)
          | some (cqe, ring) =>
              if cqe.result < 0 then (.error (.os (-cqe.result).toNat), ring)
              else (.ok cqe.result.toNat, ring)

/-- The `read` half of a request.  Only a completion closes the descriptor. -/
def readFd (fd buffer size : Nat) (w : Wait Reply ℕ+) (ring : Ring) :
    Except IoError Nat × Ring :=
  match ring.push ringEntries ⟨.read fd buffer size, 2⟩ with
  | none => (.error (.other (ascii "ring full on read")), closeFd fd ring)
  | some ring =>
      match ring.submitAndWait finish w with
      | (some e, ring) => (.error (.os e), ring)
      | (none, ring) =>
          match ring.pop with
          | none => (.error (.other (ascii "no read CQE")), ring)
          | some (cqe, ring) =>
              if cqe.result < 0 then (.error (.os (-cqe.result).toNat), closeFd fd ring)
              else (.ok cqe.result.toNat, closeFd fd ring)

def readFileUring (ring : Ring) (r : Request) : Except IoError (List Cell) × Ring :=
  match r.metadata with
  | .error e => (.error e, ring)
  | .ok size =>
      if size = 0 then (.ok [], ring)
      else if maxIoringFileBytes < size then (r.contents.map (cellsOf r.path), ring)
      else if r.path.contains 0 then
        (.error (.invalidInput (ascii "null byte in path")), ring)
      else
        match openFile r.path r.openWait ring with
        | (.error e, ring) => (.error e, ring)
        | (.ok fd, ring) =>
            let buffer := ring.device.next
            match readFd fd buffer size r.readWait (alloc size ring) with
            | (.error e, ring) => (.error e, ring)
            | (.ok n, ring) => (.ok ((ring.device.buffer buffer).take n), ring)

/-- The results that a worker sends, one for each request. -/
def worker (ring : Ring) : List Request → List (Except IoError (List Cell))
  | [] => []
  | r :: rs => (readFileUring ring r).1 :: worker (readFileUring ring r).2 rs

/-- An error, or bytes of the file itself. -/
def Own (path : Bytes) : Except IoError (List Cell) → Prop
  | .error _ => True
  | .ok cells => ∀ c ∈ cells, c.source = some path

instance (path : Bytes) (result : Except IoError (List Cell)) : Decidable (Own path result) :=
  match result with
  | .error _ => isTrue trivial
  | .ok cells => inferInstanceAs (Decidable (∀ c ∈ cells, c.source = some path))

/-- Does the request go through the ring? -/
def UsesRing (r : Request) : Prop :=
  ∃ size, r.metadata = .ok size ∧ 0 < size ∧ size ≤ maxIoringFileBytes ∧ 0 ∉ r.path

/-- No wait of the request is cut short. -/
def Undisturbed (r : Request) : Prop :=
  UsesRing r → r.openWait.error = none ∧ r.readWait.error = none

/-! ### One half of a request -/

theorem openFile_of_quiet
    (path : Bytes) {w : Wait Reply ℕ+} {ring : Ring}
    (hq : ring.Quiet)
    (hw : w.error = none) :
    ∃ result m,
      openFile path w ring = (result, ⟨[], [], [], m⟩) ∧
        ∀ fd, result = .ok fd → m.files.lookup fd = some path := by
  obtain ⟨pushed, reply, hpush, hwait⟩ :=
    Queue.wait_single finish ⟨.openAt path, 1⟩ hq (by decide : 0 < ringEntries) hw
  simp only [openFile, hpush, hwait, Queue.pop]
  cases he : reply.errno with
  | some e =>
      have hneg : -((e : Nat) : Int) < 0 := by
        have := e.pos
        omega
      simp only [finish, he, if_pos hneg]
      exact ⟨_, _, rfl, fun fd h => nomatch h⟩
  | none =>
      simp only [finish, he]
      refine ⟨_, _, rfl, ?_⟩
      intro fd h
      cases h
      exact AList.lookup_insert _

theorem readFd_of_quiet
    {path : Bytes} {fd : Nat} (buffer size : Nat) {w : Wait Reply ℕ+} {ring : Ring}
    (hq : ring.Quiet)
    (hw : w.error = none)
    (hfd : ring.device.files.lookup fd = some path) :
    ∃ result m,
      readFd fd buffer size w ring = (result, ⟨[], [], [], m⟩) ∧
        ∀ n, result = .ok n → ∀ c ∈ (m.buffer buffer).take n, c.source = some path := by
  obtain ⟨pushed, reply, hpush, hwait⟩ :=
    Queue.wait_single finish ⟨.read fd buffer size, 2⟩ hq (by decide : 0 < ringEntries) hw
  simp only [readFd, hpush, hwait, Queue.pop]
  cases he : reply.errno with
  | some e =>
      have hneg : -((e : Nat) : Int) < 0 := by
        have := e.pos
        omega
      simp only [finish, he, if_pos hneg]
      exact ⟨_, _, rfl, fun n h => nomatch h⟩
  | none =>
      simp only [finish, he, hfd]
      refine ⟨_, _, rfl, ?_⟩
      intro n h c hc
      cases h
      -- the front of the buffer is what this read delivered
      have hc : c ∈ cellsOf path (reply.data.take size) := by
        have hlen : (reply.data.take size).length = (cellsOf path (reply.data.take size)).length :=
          (List.length_map _).symm
        simp only [Memory.buffer, AList.lookup_insert, Option.getD_some,
          Int.toNat_natCast] at hc
        rwa [hlen, List.take_left] at hc
      obtain ⟨b, -, rfl⟩ := List.mem_map.mp hc
      rfl

/-- A wait that is cut short gives no descriptor. -/
theorem openFile_ok
    {path : Bytes} {w : Wait Reply ℕ+} {ring ring' : Ring} {fd : Nat}
    (h : openFile path w ring = (.ok fd, ring')) :
    w.error = none := by
  cases he : w.error with
  | none => rfl
  | some e =>
      cases hpush : ring.push ringEntries ⟨.openAt path, 1⟩ with
      | none => simp [openFile, hpush] at h
      | some pushed => simp [openFile, hpush, Queue.submitAndWait, he] at h

theorem readFd_ok
    {fd buffer size n : Nat} {w : Wait Reply ℕ+} {ring ring' : Ring}
    (h : readFd fd buffer size w ring = (.ok n, ring')) :
    w.error = none := by
  cases he : w.error with
  | none => rfl
  | some e =>
      cases hpush : ring.push ringEntries ⟨.read fd buffer size, 2⟩ with
      | none => simp [readFd, hpush] at h
      | some pushed => simp [readFd, hpush, Queue.submitAndWait, he] at h

/-! ### One request -/

theorem own_cellsOf
    (path : Bytes) (contents : Except IoError Bytes) :
    Own path (contents.map (cellsOf path)) := by
  cases contents with
  | error e => trivial
  | ok data =>
      intro c hc
      obtain ⟨b, -, rfl⟩ := List.mem_map.mp hc
      rfl

/-- On a quiet ring every request is answered from its own file. -/
theorem own_of_quiet
    {ring : Ring}
    (r : Request)
    (hq : ring.Quiet) :
    Own r.path (readFileUring ring r).1 := by
  unfold readFileUring
  split
  · trivial
  · rename_i size hsize
    split
    · intro c hc
      cases hc
    · split
      · exact own_cellsOf r.path r.contents
      · split
        · trivial
        · split
          · trivial
          · rename_i fd opened hopen
            obtain ⟨result, m, hopen', hm⟩ :=
              openFile_of_quiet r.path hq (openFile_ok hopen)
            obtain ⟨rfl, rfl⟩ := Prod.mk.inj (hopen'.symm.trans hopen)
            dsimp only
            split
            · trivial
            · rename_i n ring' hread
              obtain ⟨result, m', hread', hm'⟩ :=
                readFd_of_quiet m.next size
                  (⟨rfl, rfl, rfl⟩ : (alloc size ⟨[], [], [], m⟩).Quiet) (readFd_ok hread)
                  (hm fd rfl)
              obtain ⟨rfl, rfl⟩ := Prod.mk.inj (hread'.symm.trans hread)
              exact hm' n rfl

/-- A request whose waits are not cut short leaves nothing behind. -/
theorem quiet_readFileUring
    {ring : Ring} {r : Request}
    (hq : ring.Quiet)
    (hr : Undisturbed r) :
    (readFileUring ring r).2.Quiet := by
  unfold readFileUring
  split
  · exact hq
  · rename_i size hsize
    split
    · exact hq
    · rename_i hpos
      split
      · exact hq
      · rename_i hmax
        split
        · exact hq
        · rename_i hnul
          have huses : UsesRing r :=
            ⟨size, hsize, Nat.pos_of_ne_zero hpos, Nat.le_of_not_lt hmax, by simpa using hnul⟩
          obtain ⟨hopenWait, hreadWait⟩ := hr huses
          obtain ⟨result, m, hopen, hm⟩ := openFile_of_quiet r.path hq hopenWait
          rw [hopen]
          cases result with
          | error e => exact ⟨rfl, rfl, rfl⟩
          | ok fd =>
              obtain ⟨result, m', hread, -⟩ :=
                readFd_of_quiet m.next size
                  (⟨rfl, rfl, rfl⟩ : (alloc size ⟨[], [], [], m⟩).Quiet) hreadWait (hm fd rfl)
              simp only [hread]
              cases result <;> exact ⟨rfl, rfl, rfl⟩

/-! ### A worker -/

theorem worker_of_quiet
    {ring : Ring} {earlier : List Request}
    (r : Request) (later : List Request)
    (hq : ring.Quiet)
    (h : ∀ r ∈ earlier, Undisturbed r) :
    ∃ result,
      (worker ring (earlier ++ r :: later))[earlier.length]? = some result ∧
        Own r.path result := by
  induction earlier generalizing ring with
  | nil => exact ⟨_, rfl, own_of_quiet r hq⟩
  | cons r' earlier ih =>
      exact ih (quiet_readFileUring hq (h r' List.mem_cons_self))
        (fun r hr => h r (List.mem_cons_of_mem _ hr))

/-- A request is answered from its own file when no wait of an earlier one was cut short. -/
theorem reads_own_path
    (earlier : List Request) (r : Request) (later : List Request)
    (h : ∀ r ∈ earlier, Undisturbed r) :
    ∃ result,
      (worker Ring.new (earlier ++ r :: later))[earlier.length]? = some result ∧
        Own r.path result :=
  worker_of_quiet r later ⟨rfl, rfl, rfl⟩ h

/-- A file of one byte, opened and read without a hitch. -/
def smoothRequest (path : Bytes) (byte : UInt8) : Request where
  path := path
  metadata := .ok 1
  contents := .ok [byte]
  openWait := ⟨[], none, ⟨none, 5, []⟩⟩
  readWait := ⟨[], none, ⟨none, 0, [byte]⟩⟩

theorem reads_own_path_example :
    ∃ result,
      (worker Ring.new [smoothRequest (ascii "/a") 97, smoothRequest (ascii "/b") 98])[1]? =
          some result ∧
        Own (ascii "/b") result :=
  reads_own_path [smoothRequest (ascii "/a") 97] (smoothRequest (ascii "/b") 98) []
    (fun r hr => by
      rw [List.mem_singleton.mp hr]
      exact fun _ => ⟨rfl, rfl⟩)

/-- A request whose first wait ends with `EINTR` once the kernel has the submission. -/
def interruptedRequest (path : Bytes) (byte : UInt8) : Request where
  path := path
  metadata := .ok 1
  contents := .ok [byte]
  openWait := ⟨[.accept], some 4, ⟨none, 5, []⟩⟩
  readWait := ⟨[], none, ⟨none, 0, [byte]⟩⟩

/-- The request after it: the kernel first ends the `openat` that was left in flight. -/
def nextRequest (path : Bytes) (byte : UInt8) : Request where
  path := path
  metadata := .ok 1
  contents := .ok [98]
  openWait := ⟨[.accept, .complete 0 ⟨none, 5, []⟩], none, ⟨none, 6, []⟩⟩
  readWait := ⟨[.accept, .complete 1 ⟨none, 0, [byte]⟩], none, ⟨none, 6, []⟩⟩

/-- The second request gets the byte of the first one's file. -/
theorem reads_other_path :
    worker Ring.new [interruptedRequest (ascii "/a") 97, nextRequest (ascii "/b") 97] =
        [.error (.os 4), .ok [⟨97, some (ascii "/a")⟩]] ∧
      ¬ Own (ascii "/b") (.ok [⟨97, some (ascii "/a")⟩]) := by
  decide

end IoRing
end RunNginx
