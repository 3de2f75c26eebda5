import ArmoniOS.Lib.ByteBlock
import ArmoniOS.Lib.IndexRing

/-!
The virtio network driver and its device at the two queues they share.

`virtio_net_recv` and `virtio_net_send` run one memory access at a time, and the device may act
between any two of them. A device step does nothing when its guard fails: the device takes
descriptors in the order of the available ring, writes into buffers it holds, and returns each one
once.
-/
namespace VirtioNet

open ByteBlock Function

def queueSize : ℕ := 16
def pollLimit : ℕ := 100000
def frameSize : ℕ := 1536
def hdrSize : ℕ := 12
def rxBufSize : ℕ := hdrSize + frameSize
def descFWrite : ℕ := 2

/-- `virtq_desc_t`; an address is the number of the buffer it points to. -/
structure Desc where
  addr : ℕ
  len : ℕ
  flags : ℕ
  next : ℕ
  deriving DecidableEq, Repr

def rxDescriptor (i : ℕ) : Desc := ⟨i, rxBufSize, descFWrite, (i + 1) % queueSize⟩

/-- The receive queue. The descriptors in `held` and the entry in `posted`, whose index is not
published yet, belong to the device. `written` and `returned` record the frames it has handed over
and what the receives have copied, with their limits. -/
structure Rx where
  desc : ℕ → Desc
  availIdx : BitVec 16
  availRing : ℕ → ℕ
  usedIdx : BitVec 16
  usedRing : ℕ → ℕ × ℕ
  buf : ℕ → ℕ → UInt8
  lastUsed : BitVec 16
  takenIdx : BitVec 16
  held : List ℕ
  posted : Option (ℕ × ℕ)
  written : List (List UInt8)
  returned : List (ℕ × List UInt8)

structure Tx where
  desc : Desc
  availIdx : BitVec 16
  availRing : ℕ → ℕ
  usedIdx : BitVec 16
  buf : ℕ → UInt8
  lastUsed : BitVec 16
  pending : Bool

/-- Where the driver is: in no call, with the result of the last one, or at the next memory access of
a receive or a send. -/
inductive Pc where
  | idle (result : ℤ)
  | recvCheck (maxLen : ℕ)
  | recvId (maxLen : ℕ)
  | recvLen (maxLen desc : ℕ)
  | recvCopy (maxLen desc copyLen : ℕ) (copied : List UInt8)
  | recvDesc (maxLen desc : ℕ) (copied : List UInt8)
  | recvRing (maxLen desc : ℕ) (copied : List UInt8)
  | recvIdx (maxLen desc : ℕ) (copied : List UInt8)
  | recvLast (maxLen : ℕ) (copied : List UInt8)
  | recvSkip
  | sendReclaim (data : List UInt8)
  | sendTake (data : List UInt8)
  | sendTest (data : List UInt8)
  | sendFill (data : List UInt8) (pos : ℕ)
  | sendDesc (data : List UInt8)
  | sendRing
  | sendIdx
  | sendMark
  | sendPoll (spins : ℕ)
  | sendPollTake
  deriving DecidableEq

structure Machine where
  pc : Pc
  rx : Rx
  tx : Tx

/-- After `virtio_net_init`, whatever the buffers hold. -/
def Machine.start (rxBuf : ℕ → ℕ → UInt8) (txBuf : ℕ → UInt8) : Machine where
  pc := .idle 0
  rx :=
    { desc := rxDescriptor, availIdx := 16, availRing := id, usedIdx := 0,
      usedRing := fun _ => (0, 0), buf := rxBuf, lastUsed := 0, takenIdx := 0, held := [],
      posted := none, written := [], returned := [] }
  tx := ⟨⟨0, 0, 0, 0⟩, 0, fun _ => 0, 0, txBuf, 0, false⟩

/-! ### The driver -/

def copyLength (len maxLen : ℕ) : ℕ :=
  let copyLen := if len ≤ hdrSize then 0 else len - hdrSize
  let copyLen := if maxLen < copyLen then maxLen else copyLen
  if frameSize < copyLen then frameSize else copyLen

def Rx.slot (rx : Rx) : ℕ := rx.lastUsed.toNat % queueSize

def Rx.step (rx : Rx) : Pc → Pc × Rx
  | .recvCheck maxLen => (if rx.usedIdx = rx.lastUsed then .idle 0 else .recvId maxLen, rx)
  | .recvId maxLen =>
    let desc := (rx.usedRing rx.slot).1 % 2 ^ 16
    (if queueSize ≤ desc then .recvSkip else .recvLen maxLen desc, rx)
  | .recvSkip => (.idle (-1), { rx with lastUsed := rx.lastUsed + 1 })
  | .recvLen maxLen desc =>
    (.recvCopy maxLen desc (copyLength (rx.usedRing rx.slot).2 maxLen) [], rx)
  | .recvCopy maxLen desc copyLen copied =>
    (if copied.length < copyLen then
        .recvCopy maxLen desc copyLen (copied ++ [rx.buf desc (hdrSize + copied.length)])
      else .recvDesc maxLen desc copied, rx)
  | .recvDesc maxLen desc copied =>
    (.recvRing maxLen desc copied, { rx with desc := update rx.desc desc (rxDescriptor desc) })
  | .recvRing maxLen desc copied =>
    (.recvIdx maxLen desc copied,
      { rx with availRing := update rx.availRing (rx.availIdx.toNat % queueSize) desc })
  | .recvIdx maxLen _ copied => (.recvLast maxLen copied, { rx with availIdx := rx.availIdx + 1 })
  | .recvLast maxLen copied =>
    (.idle copied.length,
      { rx with
        lastUsed := rx.lastUsed + 1
        returned := rx.returned ++ [(maxLen, copied)] })
  | pc => (pc, rx)

/-- The next access of a send. The two reads of `g_tx_used.idx` in
`virtio_net_tx_reclaim_completed` are the steps `sendReclaim` and `sendTake`. -/
def Tx.step (tx : Tx) : Pc → Pc × Tx
  | .sendReclaim data => (if tx.usedIdx ≠ tx.lastUsed then .sendTake data else .sendTest data, tx)
  | .sendTake data => (.sendTest data, { tx with lastUsed := tx.usedIdx, pending := false })
  | .sendTest data => (if tx.pending then .idle (-2) else .sendFill data 0, tx)
  | .sendFill data pos =>
    if pos < hdrSize + data.length then
      (.sendFill data (pos + 1),
        { tx with
          buf := update tx.buf pos (if pos < hdrSize then 0 else data.getD (pos - hdrSize) 0) })
    else (.sendDesc data, tx)
  | .sendDesc data => (.sendRing, { tx with desc := ⟨0, hdrSize + data.length, 0, 0⟩ })
  | .sendRing =>
    (.sendIdx,
      { tx with availRing := update tx.availRing (tx.availIdx.toNat % queueSize) 0 })
  | .sendIdx => (.sendMark, { tx with availIdx := tx.availIdx + 1 })
  | .sendMark => (.sendPoll 0, { tx with pending := true })
  | .sendPoll spins =>
    (if pollLimit ≤ spins then .idle (-2)
      else if tx.usedIdx ≠ tx.lastUsed then .sendPollTake else .sendPoll (spins + 1), tx)
  | .sendPollTake => (.idle 0, { tx with lastUsed := tx.usedIdx, pending := false })
  | pc => (pc, tx)

/-- Is the driver inside `virtio_net_send`? -/
def Pc.sending : Pc → Bool
  | .sendReclaim _ | .sendTake _ | .sendTest _ | .sendFill _ _ | .sendDesc _ | .sendRing
  | .sendIdx | .sendMark | .sendPoll _ | .sendPollTake => true
  | _ => false

def Machine.drive (s : Machine) : Machine :=
  if s.pc.sending then { s with pc := (s.tx.step s.pc).1, tx := (s.tx.step s.pc).2 }
  else { s with pc := (s.rx.step s.pc).1, rx := (s.rx.step s.pc).2 }

/-- A call of `virtio_net_recv` or `virtio_net_send` with its arguments. -/
inductive Call where
  | recv (maxLen : ℕ)
  | send (data : List UInt8)

def Machine.call (s : Machine) (call : Call) : Machine :=
  match s.pc with
  | .idle _ =>
    match call with
    | .recv maxLen => { s with pc := .recvCheck maxLen }
    | .send data =>
      { s with pc := if data.length = 0 then .idle (-1) else .sendReclaim (data.take frameSize) }
  | _ => s

/-! ### The device -/

inductive DeviceAct where
  | take
  | write (desc pos : ℕ) (byte : UInt8)
  | post (desc len : ℕ)
  | publish
  | transmit

def payload (buf : ℕ → UInt8) (len : ℕ) : List UInt8 := window buf hdrSize (len - hdrSize)

def Rx.take (rx : Rx) : Rx :=
  if rx.takenIdx = rx.availIdx then rx
  else
    { rx with
      held := rx.held ++ [rx.availRing (rx.takenIdx.toNat % queueSize)]
      takenIdx := rx.takenIdx + 1 }

def Rx.write (rx : Rx) (desc pos : ℕ) (byte : UInt8) : Rx :=
  if desc ∈ rx.held ∧ pos < (rx.desc desc).len then
    { rx with
      buf := update rx.buf (rx.desc desc).addr
        (update (rx.buf (rx.desc desc).addr) pos byte) }
  else rx

def Rx.post (rx : Rx) (desc len : ℕ) : Rx :=
  if rx.posted = none ∧ desc ∈ rx.held ∧ len ≤ (rx.desc desc).len then
    { rx with
      usedRing := update rx.usedRing (rx.usedIdx.toNat % queueSize) (desc, len)
      posted := some (desc, len) }
  else rx

def Rx.publish (rx : Rx) : Rx :=
  match rx.posted with
  | none => rx
  | some (desc, len) =>
    { rx with
      usedIdx := rx.usedIdx + 1
      held := rx.held.erase desc
      posted := none
      written := rx.written ++ [payload (rx.buf (rx.desc desc).addr) len] }

def Rx.device (rx : Rx) : DeviceAct → Rx
  | .take => rx.take
  | .write desc pos byte => rx.write desc pos byte
  | .post desc len => rx.post desc len
  | .publish => rx.publish
  | .transmit => rx

def Tx.Owned (tx : Tx) : Prop := tx.usedIdx ≠ tx.availIdx
deriving Decidable

def Tx.device (tx : Tx) : DeviceAct → Tx
  | .transmit => if tx.Owned then { tx with usedIdx := tx.usedIdx + 1 } else tx
  | _ => tx

inductive Act where
  | call (call : Call)
  | drive
  | device (act : DeviceAct)

def Machine.act (s : Machine) : Act → Machine
  | .call call => s.call call
  | .drive => s.drive
  | .device act => { s with rx := s.rx.device act, tx := s.tx.device act }

def Machine.run (s : Machine) (acts : List Act) : Machine := acts.foldl Machine.act s

/-! ### Who has the receive descriptors -/

def Rx.available (rx : Rx) : List ℕ :=
  (List.range (rx.availIdx - rx.takenIdx).toNat).map fun i =>
    rx.availRing ((rx.takenIdx.toNat + i) % queueSize)

/-- The index of the first used entry that is not read; the last step of a receive is behind the
point where it has handed its descriptor back. -/
def Machine.readIdx (s : Machine) : BitVec 16 :=
  match s.pc with
  | .recvLast _ _ => s.rx.lastUsed + 1
  | _ => s.rx.lastUsed

def Machine.unread (s : Machine) : List ℕ :=
  (List.range (s.rx.usedIdx - s.readIdx).toNat).map fun i =>
    (s.rx.usedRing ((s.readIdx.toNat + i) % queueSize)).1

end VirtioNet
