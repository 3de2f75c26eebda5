import ArmoniOS.Lib.ByteBlock
import ArmoniOS.Lib.IndexRing

/-!
The virtio block driver and its device.

All calls share one request header, one chain of three descriptors and one status byte. A call writes
them store by store, publishes the chain, and polls the used index; the device completes chains in
order, at any pace. A device step does nothing when its guard fails.
-/
namespace VirtioBlk

open ByteBlock IndexRing Function

abbrev Sector : Type := Block 512

def queueSize : ℕ := 8
def pollLimit : ℕ := 10000000
def blkTIn : ℕ := 0
def blkTOut : ℕ := 1
def blkSOk : UInt8 := 0
def descFNext : ℕ := 1
def descFWrite : ℕ := 2

/-- What a descriptor can point to: `g_request`, `g_status`, or the buffer of a caller. -/
inductive Addr where
  | null
  | request
  | status
  | buffer (id : ℕ)
  deriving DecidableEq, Repr

structure Desc where
  addr : Addr
  len : ℕ
  flags : ℕ
  next : ℕ
  deriving DecidableEq, Repr

/-- `virtio_blk_read_sector` or `virtio_blk_write_sector` with its arguments. -/
structure Call where
  write : Bool
  sector : ℕ
  buffer : ℕ
  deriving DecidableEq, Repr

/-- `VIRTIO_BLK_T_IN` or `VIRTIO_BLK_T_OUT`. -/
def Call.type (call : Call) : ℕ := if call.write then blkTOut else blkTIn

/-- The memory that driver and device share, with the buffers of the callers. -/
structure Mem where
  type : ℕ
  sector : ℕ
  status : UInt8
  desc : ℕ → Desc
  availIdx : BitVec 16
  availRing : ℕ → ℕ
  usedIdx : BitVec 16
  buffers : ℕ → Sector

inductive Store where
  | type (value : ℕ)
  | sector (value : ℕ)
  | status (value : UInt8)
  | desc (i : ℕ) (value : Desc)
  | availRing (slot value : ℕ)
  | availIdx (value : BitVec 16)

def Mem.store (mem : Mem) : Store → Mem
  | .type value => { mem with type := value }
  | .sector value => { mem with sector := value }
  | .status value => { mem with status := value }
  | .desc i value => { mem with desc := update mem.desc i value }
  | .availRing slot value => { mem with availRing := update mem.availRing slot value }
  | .availIdx value => { mem with availIdx := value }

def headerDesc : Desc := ⟨.request, 16, descFNext, 1⟩

def dataDesc (call : Call) : Desc :=
  ⟨.buffer call.buffer, 512, if call.write then descFNext else descFNext + descFWrite, 2⟩

def statusDesc : Desc := ⟨.status, 1, descFWrite, 0⟩

/-- The stores that describe a request, behind `avail_idx` earlier ones. -/
def describe (call : Call) (availIdx : BitVec 16) : List Store :=
  [.type call.type, .sector call.sector, .status 0xff, .desc 0 headerDesc, .desc 1 (dataDesc call),
    .desc 2 statusDesc, .availRing (availIdx.toNat % queueSize) 0]

/-- Where the driver is: in no call, with the result of the last one; with stores left to make; or
polling. -/
inductive Pc where
  | idle (result : ℤ)
  | setup (call : Call) (stores : List Store)
  | poll (call : Call) (spins : ℕ)
  | take (call : Call)
  | finish (call : Call)

/-- The chain the device works on, as it has read it, and the status once it has one. -/
structure Work where
  type : ℕ
  sector : ℕ
  data : Desc
  status : Option UInt8
  deriving DecidableEq, Repr

structure Completion where
  type : ℕ
  sector : ℕ
  addr : Addr
  status : UInt8
  deriving DecidableEq, Repr

/-- A call that has returned: the number of its request, and the buffer and the sector on the disk at
that moment. -/
structure Return where
  call : Call
  number : ℕ
  result : ℤ
  data : Sector
  onDisk : Sector

structure Machine where
  pc : Pc
  mem : Mem
  lastUsed : BitVec 16
  takenIdx : BitVec 16
  work : Option Work
  disk : ℕ → Sector
  submitted : ℕ
  completions : List Completion
  returns : List Return

/-- After `virtio_blk_init`. -/
def Machine.start (disk buffers : ℕ → Sector) : Machine where
  pc := .idle 0
  mem := ⟨0, 0, 0xff, fun _ => ⟨.null, 0, 0, 0⟩, 0, fun _ => 0, 0, buffers⟩
  lastUsed := 0
  takenIdx := 0
  work := none
  disk := disk
  submitted := 0
  completions := []
  returns := []

/-! ### The driver -/

def Machine.ret (s : Machine) (call : Call) (result : ℤ) : Machine :=
  { s with
    pc := .idle result
    returns := s.returns ++
      [⟨call, s.submitted - 1, result, s.mem.buffers call.buffer, s.disk call.sector⟩] }

/-- The next access of a call. `submitted` counts the requests that are published. -/
def Machine.drive (s : Machine) : Machine :=
  match s.pc with
  | .idle _ => s
  | .setup call [] =>
    { s with
      pc := .poll call 0
      mem := s.mem.store (.availIdx (s.mem.availIdx + 1))
      submitted := s.submitted + 1 }
  | .setup call (store :: stores) => { s with pc := .setup call stores, mem := s.mem.store store }
  | .poll call spins =>
    if pollLimit ≤ spins then s.ret call (-2)
    else if s.mem.usedIdx ≠ s.lastUsed then { s with pc := .take call }
    else { s with pc := .poll call (spins + 1) }
  | .take call => { s with pc := .finish call, lastUsed := s.mem.usedIdx }
  | .finish call => s.ret call (if s.mem.status = blkSOk then 0 else -3)

def Machine.call (s : Machine) (call : Call) : Machine :=
  match s.pc with
  | .idle _ => { s with pc := .setup call (describe call s.mem.availIdx) }
  | _ => s

def Machine.fill (s : Machine) (buffer : ℕ) (data : Sector) : Machine :=
  match s.pc with
  | .idle _ =>
    { s with mem := { s.mem with buffers := update s.mem.buffers buffer data } }
  | _ => s

/-! ### The device -/

inductive DeviceAct where
  | fetch
  | transfer (data : Sector)
  | complete (status : UInt8)
  | publish

/-- The device reads the next chain: the header, and the data descriptor behind it. -/
def Machine.fetch (s : Machine) : Machine :=
  if s.work = none ∧ s.takenIdx ≠ s.mem.availIdx then
    let header := s.mem.desc (s.mem.availRing (s.takenIdx.toNat % queueSize))
    { s with
      work := some
        { type := if header.addr = .request then s.mem.type else 0
          sector := if header.addr = .request then s.mem.sector else 0
          data := s.mem.desc header.next
          status := none }
      takenIdx := s.takenIdx + 1 }
  else s

def Work.target (work : Work) : Option ℕ :=
  match work.data.addr with
  | .buffer id => if work.data.flags / descFWrite % 2 = 1 then some id else none
  | _ => none

def Mem.setBuffer (mem : Mem) (target : Option ℕ) (data : Sector) : Mem :=
  match target with
  | some id => { mem with buffers := update mem.buffers id data }
  | none => mem

def Machine.transfer (s : Machine) (data : Sector) : Machine :=
  match s.work with
  | some work => if work.status = none then { s with mem := s.mem.setBuffer work.target data } else s
  | none => s

/-- The device finishes the transfer and writes the status byte. With the status OK a read has left
the sector in the buffer and a write the buffer in the sector. -/
def Machine.complete (s : Machine) (status : UInt8) : Machine :=
  match s.work with
  | some work =>
    if work.status = none then
      let mem :=
        if status = blkSOk ∧ work.type = blkTIn then s.mem.setBuffer work.target (s.disk work.sector)
        else s.mem
      let disk :=
        match work.data.addr with
        | .buffer id =>
          if status = blkSOk ∧ work.type = blkTOut then
            update s.disk work.sector (s.mem.buffers id)
          else s.disk
        | _ => s.disk
      { s with
        work := some { work with status := some status }
        mem := { mem with status := status }
        disk := disk }
    else s
  | none => s

def Machine.publish (s : Machine) : Machine :=
  match s.work with
  | some ⟨type, sector, data, some status⟩ =>
    { s with
      work := none
      mem := { s.mem with usedIdx := s.mem.usedIdx + 1 }
      completions := s.completions ++ [⟨type, sector, data.addr, status⟩] }
  | _ => s

def Machine.device (s : Machine) : DeviceAct → Machine
  | .fetch => s.fetch
  | .transfer data => s.transfer data
  | .complete status => s.complete status
  | .publish => s.publish

inductive Act where
  | call (call : Call)
  | fill (buffer : ℕ) (data : Sector)
  | drive
  | device (act : DeviceAct)

def Machine.act (s : Machine) : Act → Machine
  | .call call => s.call call
  | .fill buffer data => s.fill buffer data
  | .drive => s.drive
  | .device act => s.device act

def Machine.run (s : Machine) (acts : List Act) : Machine := acts.foldl Machine.act s

end VirtioBlk
