import ArmoniOS.Libkarm.Refinement

/-! Reading a whole file into an arena, `libkarm/file.c`. The system calls may answer anything at any
time: an error, a count that no read can return, chunks without end. The arena is what bounds the
reading loop, since every chunk it goes on with takes at least one more byte of it. -/
namespace Libkarm
open ByteMemory List World

def kliFileIoChunk : ℕ := 256

def armFileTypeRegular : ℕ := 1

/-- The conversion of a `long` to `int`. -/
def castInt (x : ℤ) : ℤ := x.bmod (2 ^ 32)

/-- What `kli_stat_v2` returns and leaves in its record. -/
structure Stat where
  status : ℤ
  type : ℕ
  size : ℕ

/-- The system calls. Every answer may depend on all that happened before, which is what `σ` stands
for. A read returns its count and the bytes of the chunk afterwards. -/
structure System (σ : Type) where
  stat : σ → ℕ → Stat × σ
  openFile : σ → ℕ → ℤ × σ
  read : σ → ℤ → (ℤ × Mem) × σ
  close : σ → ℤ → ℤ × σ

inductive Call where
  | stat (status : ℤ)
  | openFile (fd : ℤ)
  | read (fd count : ℤ) (data : Mem)
  | close (fd status : ℤ)

structure Machine (σ : Type) where
  world : World
  os : σ
  calls : List Call

structure Frame where
  temporary : ℕ
  chunk : ℕ

/-- Memory in which `n` bytes from `p` on were filled in. -/
def filled (m : Mem) (p n : ℕ) (data : Mem) : Mem := fun a =>
  if p ≤ a ∧ a < p + n then data (a - p) else m a

variable {σ : Type}

def Machine.setArenaOffset (m : Machine σ) (offset : ℕ) : Machine σ :=
  { m with world := { m.world with arena := { m.world.arena with offset := offset } } }

def Machine.setObject (m : Machine σ) (h : Handle) (b : Buffer) : Machine σ :=
  { m with world := m.world.set h b }

def fileArenaIsValid (w : World) (arena : Bool) : Bool :=
  arena = true ∧ w.arena.base ≠ 0 ∧ w.arena.offset ≤ w.arena.capacity

def fileRegularSize (sys : System σ) (m : Machine σ) (path : ℕ) : ℤ × ℕ × Machine σ :=
  if path = 0 then (kliInval, 0, m)
  else
    let answer := sys.stat m.os path
    let m := { m with os := answer.2, calls := m.calls ++ [.stat answer.1.status] }
    if answer.1.status < 0 then (answer.1.status, 0, m)
    else if answer.1.type ≠ armFileTypeRegular then (kliInval, 0, m)
    else if word answer.1.size ≠ answer.1.size then (kliNomem, 0, m)
    else (0, answer.1.size, m)

/-- The object of a call now holds `bs`, and everything is still owned. -/
structure Stores (w w' : World) (h : Handle) (bs : List UInt8) : Prop where
  change : Change w w' h
  owned : w'.Owned
  arena_eq : (w'.objects h).arena = true
  contents_eq : w'.contents h = bs

/-- What differs between reading bytes and reading text: the kind of object, and the two functions
that set it up and fill it. -/
structure Reader where
  handle : ℕ → Handle
  init : World → ℕ → ℕ → ℤ × World
  append : World → ℕ → ℕ → ℕ → ℤ × World
  handle_inj : Function.Injective handle
  init_spec : ∀ (w : World) (p n : ℕ), w.Owned → p ≠ 0 →
    ∃ status w', init w p n = (status, w') ∧ Change w w' (handle p) ∧
      (status < 0 ∨ status = 0 ∧ Stores w w' (handle p) [])
  append_spec : ∀ (w : World) (p data n : ℕ), w.Owned → w.arena.Settled data n →
    Outcome w (fun w' => Stores w w' (handle p) (w.contents (handle p) ++ bytes w.mem data n))
      (append w p data n)

/-- The loop `for (;;)`, for at most `fuel` reads. -/
def readChunks (R : Reader) (sys : System σ) (fd : ℤ) (f : Frame) :
    ℕ → Machine σ → Option (ℤ × Machine σ)
  | 0, _ => none
  | fuel + 1, m =>
      let answer := sys.read m.os (castInt fd)
      let count := answer.1.1
      let w := { m.world with mem := filled m.world.mem f.chunk kliFileIoChunk answer.1.2 }
      let calls := m.calls ++ [.read (castInt fd) count answer.1.2]
      if count < 0 then some (count, ⟨w, answer.2, calls⟩)
      else if count = 0 then some (0, ⟨w, answer.2, calls⟩)
      else if count > kliFileIoChunk then some (kliInval, ⟨w, answer.2, calls⟩)
      else
        let result := R.append w f.temporary f.chunk count.toNat
        if result.1 < 0 then some (result.1, ⟨result.2, answer.2, calls⟩)
        else readChunks R sys fd f fuel ⟨result.2, answer.2, calls⟩

def fileFinish (R : Reader) (sys : System σ) (fd : ℤ) (out : ℕ) (f : Frame) (arenaOffset : ℕ)
    (loop : ℤ × Machine σ) : ℤ × Machine σ :=
  let answer := sys.close loop.2.os (castInt fd)
  let m :=
    { loop.2 with os := answer.2, calls := loop.2.calls ++ [Call.close (castInt fd) answer.1] }
  let result := if loop.1 = 0 ∧ answer.1 < 0 then answer.1 else loop.1
  if result < 0 then (result, m.setArenaOffset arenaOffset)
  else (0, m.setObject (R.handle out) (m.world.objects (R.handle f.temporary)))

/-- The common body of `kli_file_read_all` and `kli_file_read_text`. -/
def fileRead (R : Reader) (sys : System σ) (fuel : ℕ) (m : Machine σ) (path : ℕ) (arena : Bool)
    (out : ℕ) (f : Frame) : Option (ℤ × Machine σ) :=
  if out = 0 then some (kliInval, m)
  else
    let m := m.setObject (R.handle out) bufferClearAll
    if path = 0 ∨ ¬ fileArenaIsValid m.world arena then some (kliInval, m)
    else
      let arenaOffset := m.world.arena.offset
      let size := fileRegularSize sys m path
      let m := size.2.2
      if size.1 < 0 then some (size.1, m)
      else
        let init := R.init m.world f.temporary size.2.1
        let m := { m with world := init.2 }
        if init.1 < 0 then some (init.1, m.setArenaOffset arenaOffset)
        else
          let answer := sys.openFile m.os path
          let fd := answer.1
          let m := { m with os := answer.2, calls := m.calls ++ [.openFile fd] }
          if fd < 0 then some (fd, m.setArenaOffset arenaOffset)
          else
            (readChunks R sys fd f fuel m).map (fileFinish R sys fd out f arenaOffset)

def bufferReader : Reader where
  handle := .buffer
  init w p n := kliBufferInitCapacity w (.buffer p) true n
  append w p data n := kliBufferAppend w (.buffer p) data n
  handle_inj _ _ h := Handle.buffer.inj h
  init_spec w p n hw hp := by
    have h := kliBufferInitCapacity_outcome hw.valid (.buffer p) true n
    generalize kliBufferInitCapacity w (.buffer p) true n = result at h
    cases h with
    | null h0 => exact absurd h0 hp
    | failed hneg h0 hempty => exact ⟨_, _, rfl, hempty.change, .inl hneg⟩
    | done h0 hholds =>
      exact ⟨_, _, rfl, hholds.change, .inr ⟨rfl, hholds.change,
        hholds.change.owned_buffer hw hholds.held, hholds.arena_eq, hholds.contents_eq⟩⟩
  append_spec w p data n hw hset := by
    rcases kliBufferAppend_outcome hw.valid (hw.held (.buffer p)) hset with
      hfail | ⟨w', heq, hholds⟩
    · exact .inl hfail
    · exact .inr ⟨w', heq, hholds.change, hholds.change.owned_buffer hw hholds.held,
        hholds.arena_eq, hholds.contents_eq⟩

def stringReader : Reader where
  handle := .string
  init w p n := kliStringInitCapacity w p true n
  append := kliStringAppendN
  handle_inj _ _ h := Handle.string.inj h
  init_spec w p n hw hp := by
    have h := kliStringInitCapacity_outcome hw.valid p true n
    generalize kliStringInitCapacity w p true n = result at h
    cases h with
    | null h0 => exact absurd h0 hp
    | failed hneg h0 hcleared => exact ⟨_, _, rfl, hcleared.change, .inl hneg⟩
    | done h0 htext =>
      exact ⟨_, _, rfl, htext.holds.change, .inr ⟨rfl, htext.holds.change, htext.owned hw,
        htext.holds.arena_eq, htext.holds.contents_eq⟩⟩
  append_spec w p data n hw hset := by
    rcases kliStringAppendN_outcome hw p hset with hfail | ⟨w', heq, htext⟩
    · exact .inl hfail
    · exact .inr ⟨w', heq, htext.holds.change, htext.owned hw, htext.holds.arena_eq,
        htext.holds.contents_eq⟩

def kliFileReadAll (sys : System σ) (fuel : ℕ) (m : Machine σ) (path : ℕ) (arena : Bool) (out : ℕ)
    (f : Frame) : Option (ℤ × Machine σ) :=
  fileRead bufferReader sys fuel m path arena out f

def kliFileReadText (sys : System σ) (fuel : ℕ) (m : Machine σ) (path : ℕ) (arena : Bool) (out : ℕ)
    (f : Frame) : Option (ℤ × Machine σ) :=
  fileRead stringReader sys fuel m path arena out f

def chunksRead (calls : List Call) : List UInt8 :=
  calls.flatMap fun
    | .read _ count data => bytes data 0 count.toNat
    | _ => []

def opened (calls : List Call) : List ℤ :=
  calls.filterMap fun
    | .openFile fd => if 0 ≤ fd then some fd else none
    | _ => none

def closed (calls : List Call) : List ℤ :=
  calls.filterMap fun
    | .close fd _ => some fd
    | _ => none

structure Frame.Local (f : Frame) (w : World) : Prop where
  temporary_ne : f.temporary ≠ 0
  chunk_out : f.chunk + kliFileIoChunk ≤ w.arena.base ∨ w.arena.limit ≤ f.chunk

variable {f : Frame}

theorem Frame.Local.of_change {w w' : World} {h : Handle} (hf : f.Local w) (hc : Change w w' h) :
    f.Local w' :=
  ⟨hf.temporary_ne, by rw [hc.base_eq, hc.limit_eq]; exact hf.chunk_out⟩

section Chunk
variable {w : World} {f : Frame} (hf : f.Local w) (data : Mem)
include hf

theorem filled_outside (a : ℕ) (hbase : w.arena.base ≤ a) (hlimit : a < w.arena.limit) :
    filled w.mem f.chunk kliFileIoChunk data a = w.mem a := by
  have hout := hf.chunk_out
  exact if_neg (by omega)

theorem settled_chunk {n : ℕ} (hn : n ≤ kliFileIoChunk) : w.arena.Settled f.chunk n := by
  have hout := hf.chunk_out
  have hbase : w.arena.base ≤ w.arena.top := Nat.le_add_right _ _
  intro i hi
  omega

end Chunk

theorem bytes_filled (m : Mem) (p : ℕ) {n k : ℕ} (data : Mem) (hn : n ≤ k) :
    bytes (filled m p k data) p n = bytes data 0 n := by
  apply ByteBlock.window_congr
  intro i hi
  unfold filled
  rw [if_pos (by omega), Nat.add_sub_cancel_left, Nat.zero_add]

theorem World.Change.capacity_eq {w w' : World} {h : Handle} (hc : Change w w' h) :
    w'.arena.capacity = w.arena.capacity := by
  have hbase := hc.base_eq
  have hlimit := hc.limit_eq
  unfold Arena.limit at hlimit
  omega

theorem World.Owned.length_le_capacity {w : World} (hw : w.Owned) (h : Handle) :
    (w.objects h).length ≤ w.arena.capacity := by
  have hh := hw.held h
  have hle := hh.length_le
  have htop := hw.valid.top_le
  by_cases hcap : (w.objects h).capacity = 0
  · omega
  · have := hh.inside hcap
    unfold Arena.limit at htop
    omega

/-- What the loop leaves behind: only reads were made, and if it ends well the object has grown by
what they returned. -/
structure LoopDone (R : Reader) (fd : ℤ) (f : Frame) (m : Machine σ) (status : ℤ)
    (m' : Machine σ) : Prop where
  status_le : status ≤ 0
  change : Change m.world m'.world (R.handle f.temporary)
  owned : m'.world.Owned
  arena_eq : (m.world.objects (R.handle f.temporary)).arena = true →
    (m'.world.objects (R.handle f.temporary)).arena = true
  calls : ∃ reads, m'.calls = m.calls ++ reads ∧
    (∀ c ∈ reads, ∃ count data, c = .read (castInt fd) count data) ∧
    (status = 0 → m'.world.contents (R.handle f.temporary) =
      m.world.contents (R.handle f.temporary) ++ chunksRead reads)

theorem readChunks_round (R : Reader) (sys : System σ) (fd : ℤ) {m : Machine σ} (hw : m.world.Owned)
    (hf : f.Local m.world) :
    (∃ status m', (∀ fuel, readChunks R sys fd f (fuel + 1) m = some (status, m')) ∧
      LoopDone R fd f m status m') ∨
    ∃ m₁ count data, (∀ fuel, readChunks R sys fd f (fuel + 1) m = readChunks R sys fd f fuel m₁) ∧
      m₁.calls = m.calls ++ [.read (castInt fd) count data] ∧ 0 < count.toNat ∧
      Stores m.world m₁.world (R.handle f.temporary)
        (m.world.contents (R.handle f.temporary) ++ bytes data 0 count.toNat) := by
  obtain ⟨⟨⟨count, data⟩, os⟩, hanswer⟩ : ∃ answer, sys.read m.os (castInt fd) = answer := ⟨_, rfl⟩
  have hout := filled_outside hf data
  have hc := change_outside hout hw.valid (R.handle f.temporary)
  have howned := owned_outside hout hw
  have hsame := contents_outside hout hw (R.handle f.temporary)
  have hstop (status : ℤ) (hle : status ≤ 0) (hzero : status = 0 → count = 0) :
      LoopDone R fd f m status
        ⟨{ m.world with mem := filled m.world.mem f.chunk kliFileIoChunk data }, os,
          m.calls ++ [.read (castInt fd) count data]⟩ := by
    refine ⟨hle, hc, howned, id, _, rfl, ?_, ?_⟩
    · simp
    · intro h0
      simp [chunksRead, hzero h0, hsame]
  by_cases hneg : count < 0
  · refine .inl ⟨_, _, fun fuel => ?_, hstop count hneg.le (fun h => by omega)⟩
    simp [readChunks, hanswer, hneg]
  by_cases h0 : count = 0
  · refine .inl ⟨_, _, fun fuel => ?_, hstop 0 le_rfl (fun _ => h0)⟩
    simp [readChunks, hanswer, h0]
  by_cases hbig : count > kliFileIoChunk
  · refine .inl ⟨_, _, fun fuel => ?_, hstop kliInval (by decide) (fun h => absurd h (by decide))⟩
    simp [readChunks, hanswer, hneg, h0, hbig]
  have hn : count.toNat ≤ kliFileIoChunk := by omega
  have hset := settled_chunk hf hn
  rcases R.append_spec _ f.temporary f.chunk count.toNat howned hset with
    ⟨status, hfail, heq⟩ | ⟨w', heq, hstores⟩
  · refine .inl ⟨_, _, fun fuel => ?_, hstop status hfail.le (fun h => by omega)⟩
    simp [readChunks, hanswer, hneg, h0, hbig, heq, hfail]
  · refine .inr ⟨⟨w', os, m.calls ++ [.read (castInt fd) count data]⟩, count, data, fun fuel => ?_,
      rfl, by omega, hc.trans hstores.change, hstores.owned, hstores.arena_eq, ?_⟩
    · simp [readChunks, hanswer, hneg, h0, hbig, heq]
    · rw [hstores.contents_eq, hsame, bytes_filled _ _ _ hn]

theorem readChunks_done (R : Reader) (sys : System σ) (fd : ℤ) {m : Machine σ} (hw : m.world.Owned)
    (hf : f.Local m.world) :
    ∃ status m', (∀ fuel > m.world.arena.capacity, readChunks R sys fd f fuel m =
      some (status, m')) ∧ LoopDone R fd f m status m' := by
  -- by induction on the bytes the object can still take
  suffices h : ∀ d (m : Machine σ), m.world.Owned → f.Local m.world →
      m.world.arena.capacity - (m.world.objects (R.handle f.temporary)).length = d →
      ∃ status m', (∀ fuel > d, readChunks R sys fd f fuel m = some (status, m')) ∧
        LoopDone R fd f m status m' by
    obtain ⟨status, m', hrun, hdone⟩ := h _ m hw hf rfl
    exact ⟨status, m', fun fuel hfuel => hrun fuel (by omega), hdone⟩
  intro d
  induction d using Nat.strong_induction_on with
  | _ d ih =>
    intro m hw hf hd
    rcases readChunks_round R sys fd hw hf with
      ⟨status, m', hrun, hdone⟩ | ⟨m₁, count, data, hrun, hcalls, hpos, hstores⟩
    · refine ⟨status, m', fun fuel hfuel => ?_, hdone⟩
      obtain ⟨k, rfl⟩ : ∃ k, fuel = k + 1 := ⟨fuel - 1, by omega⟩
      exact hrun k
    have hlen : (m₁.world.objects (R.handle f.temporary)).length =
        (m.world.objects (R.handle f.temporary)).length + count.toNat := by
      rw [← contents_length, hstores.contents_eq]
      simp
    have hle := hstores.owned.length_le_capacity (R.handle f.temporary)
    have hcap := hstores.change.capacity_eq
    obtain ⟨status, m', hrun', hdone⟩ :=
      ih _ (by omega) m₁ hstores.owned (hf.of_change hstores.change) rfl
    refine ⟨status, m', fun fuel hfuel => ?_, ?_⟩
    · obtain ⟨k, rfl⟩ : ∃ k, fuel = k + 1 := ⟨fuel - 1, by omega⟩
      rw [hrun k]
      exact hrun' k (by omega)
    · obtain ⟨reads, hreads, honly, hall⟩ := hdone.calls
      refine ⟨hdone.status_le, hstores.change.trans hdone.change, hdone.owned,
        fun _ => hdone.arena_eq hstores.arena_eq, .read (castInt fd) count data :: reads, ?_, ?_, ?_⟩
      · rw [hreads, hcalls, append_assoc]
        rfl
      · intro c hmem
        rcases mem_cons.mp hmem with rfl | hmem
        · exact ⟨count, data, rfl⟩
        · exact honly c hmem
      · intro h0
        rw [hall h0, hstores.contents_eq, append_assoc]
        rfl

structure FileDone (R : Reader) (m : Machine σ) (out : ℕ) (f : Frame) (status : ℤ)
    (m' : Machine σ) : Prop where
  status_le : status ≤ 0
  opened_le : (opened m'.calls).length ≤ 1
  closed_eq : closed m'.calls = (opened m'.calls).map castInt
  failure : status < 0 → m'.world.arena.offset = m.world.arena.offset ∧
    (out ≠ 0 → m'.world.objects (R.handle out) = bufferClearAll)
  success : status = 0 → m'.world.contents (R.handle out) = chunksRead m'.calls ∧
    ∃ w : World, w.Owned ∧ w.mem = m'.world.mem ∧
      w.objects (R.handle f.temporary) = m'.world.objects (R.handle out) ∧
      (w.objects (R.handle f.temporary)).arena = true

theorem opened_closed_reads {fd : ℤ} {reads : List Call}
    (honly : ∀ c ∈ reads, ∃ count data, c = .read (castInt fd) count data) :
    opened reads = [] ∧ closed reads = [] := by
  constructor
  all_goals
    apply filterMap_eq_nil_iff.mpr
    intro c hc
    obtain ⟨count, data, rfl⟩ := honly c hc
    rfl

theorem fileRegularSize_spec (sys : System σ) (m : Machine σ) {path : ℕ} (hpath : path ≠ 0) :
    ∃ status size os answer, fileRegularSize sys m path =
      (status, size, ⟨m.world, os, m.calls ++ [.stat answer]⟩) ∧ status ≤ 0 := by
  unfold fileRegularSize
  rw [if_neg hpath]
  dsimp only
  split_ifs with hneg htype hsize
  · exact ⟨_, _, _, _, rfl, hneg.le⟩
  · exact ⟨_, _, _, _, rfl, kliInval_neg.le⟩
  · exact ⟨_, _, _, _, rfl, kliNomem_neg.le⟩
  · exact ⟨_, _, _, _, rfl, le_rfl⟩

theorem fileDone_early {R : Reader} {m m' : Machine σ} {out : ℕ} {status : ℤ} (hneg : status < 0)
    (hopened : opened m'.calls = []) (hclosed : closed m'.calls = [])
    (hoffset : m'.world.arena.offset = m.world.arena.offset)
    (hout : out ≠ 0 → m'.world.objects (R.handle out) = bufferClearAll) :
    FileDone R m out f status m' :=
  ⟨hneg.le, by simp [hopened], by simp [hopened, hclosed], fun _ => ⟨hoffset, hout⟩,
    fun h => absurd h hneg.ne⟩

theorem fileDone_of_loop {R : Reader} (sys : System σ) {m m₁ m₂ : Machine σ} {out : ℕ}
    {fd loop answer : ℤ} (hne : f.temporary ≠ out) (hfd : 0 ≤ fd)
    (hcalls : m₁.calls = [.stat answer, .openFile fd])
    (hempty : m₁.world.contents (R.handle f.temporary) = [])
    (harena : (m₁.world.objects (R.handle f.temporary)).arena = true)
    (hout : m₁.world.objects (R.handle out) = bufferClearAll) (hloop : LoopDone R fd f m₁ loop m₂) :
    FileDone R m out f (fileFinish R sys fd out f m.world.arena.offset (loop, m₂)).1
      (fileFinish R sys fd out f m.world.arena.offset (loop, m₂)).2 := by
  obtain ⟨⟨closeStatus, os⟩, hclose⟩ : ∃ answer, sys.close m₂.os (castInt fd) = answer := ⟨_, rfl⟩
  unfold fileFinish
  simp only [hclose]
  set closing : Machine σ := ⟨m₂.world, os, m₂.calls ++ [.close (castInt fd) closeStatus]⟩ with hclosing
  set result := if loop = 0 ∧ closeStatus < 0 then closeStatus else loop with hresult
  obtain ⟨reads, hreads, honly, hall⟩ := hloop.calls
  obtain ⟨hopens, hcloses⟩ := opened_closed_reads honly
  have hle := hloop.status_le
  have hlog : closing.calls =
      .stat answer :: .openFile fd :: (reads ++ [.close (castInt fd) closeStatus]) := by
    simp [closing, hreads, hcalls]
  have hopened : opened closing.calls = [fd] := by
    unfold opened at hopens ⊢
    simp [hlog, hfd, hopens]
  have hone : (opened closing.calls).length ≤ 1 := by simp [hopened]
  have hclosed : closed closing.calls = (opened closing.calls).map castInt := by
    rw [hopened]
    unfold closed at hcloses ⊢
    simp [hlog, hcloses]
  have hhandle : R.handle out ≠ R.handle f.temporary := fun h => hne (R.handle_inj h).symm
  by_cases hres : result < 0
  · rw [if_pos hres]
    exact ⟨hres.le, hone, hclosed,
      fun _ => ⟨rfl, fun _ => (hloop.change.others _ hhandle).trans hout⟩, fun h => absurd h hres.ne⟩
  · have hzero : loop = 0 := by
      by_contra hloop0
      omega
    rw [if_neg hres]
    refine ⟨le_rfl, hone, hclosed, fun h => absurd h (lt_irrefl 0), fun _ => ⟨?_, m₂.world,
      hloop.owned, rfl, set_objects_self.symm, hloop.arena_eq harena⟩⟩
    have hcontents : contents (closing.world.set (R.handle out)
        (closing.world.objects (R.handle f.temporary))) (R.handle out) =
        m₂.world.contents (R.handle f.temporary) := by
      simp [contents, closing]
    have hchunks : chunksRead closing.calls = chunksRead reads := by
      rw [hlog]
      simp [chunksRead]
    change contents (closing.world.set (R.handle out) _) (R.handle out) = chunksRead closing.calls
    rw [hcontents, hchunks, hall hzero, hempty, nil_append]

theorem fileRead_done (R : Reader) (sys : System σ) {w : World} (os : σ) (path : ℕ) (arena : Bool)
    (out : ℕ) (hw : fileArenaIsValid w arena = true → w.Owned) (hf : f.Local w)
    (hne : f.temporary ≠ out) :
    ∃ status m', (∀ fuel > w.arena.capacity,
        fileRead R sys fuel ⟨w, os, []⟩ path arena out f = some (status, m')) ∧
      FileDone R ⟨w, os, []⟩ out f status m' := by
  by_cases hout : out = 0
  · refine ⟨kliInval, ⟨w, os, []⟩, fun fuel _ => if_pos hout, ?_⟩
    exact fileDone_early kliInval_neg rfl rfl rfl fun h => absurd hout h
  unfold fileRead
  simp only [if_neg hout]
  by_cases hbad : path = 0 ∨ ¬ fileArenaIsValid w arena = true
  · refine ⟨kliInval, _, fun fuel _ => if_pos hbad, ?_⟩
    exact fileDone_early kliInval_neg rfl rfl rfl fun _ => set_objects_self
  obtain ⟨hpath, hvalid⟩ := not_or.mp hbad
  have hw := hw (not_not.mp hvalid)
  have hw₀ := (change_set_empty hw.valid (R.handle out) false).owned hw (held_set_empty ..)
    (by simp [bufferClearAll])
  have hhandle : R.handle out ≠ R.handle f.temporary := fun h => hne (R.handle_inj h).symm
  obtain ⟨status, size, os₁, answer, hsize, hle⟩ := fileRegularSize_spec sys
    (Machine.setObject ⟨w, os, []⟩ (R.handle out) bufferClearAll) hpath
  simp only [show ¬ (path = 0 ∨ ¬ fileArenaIsValid
    (Machine.setObject ⟨w, os, []⟩ (R.handle out) bufferClearAll).world arena = true) from hbad,
    if_false, hsize]
  by_cases hneg : status < 0
  · refine ⟨status, _, fun fuel _ => if_pos hneg, ?_⟩
    exact fileDone_early hneg rfl rfl rfl fun _ => set_objects_self
  simp only [if_neg hneg]
  obtain ⟨st, w₁, hinit, hc₁, hst⟩ := R.init_spec _ f.temporary size hw₀ hf.temporary_ne
  simp only [show R.init (Machine.setObject ⟨w, os, []⟩ (R.handle out) bufferClearAll).world
    f.temporary size = (st, w₁) from hinit]
  have hout₁ := (hc₁.others _ hhandle).trans set_objects_self
  rcases hst with hneg₁ | ⟨rfl, hstores⟩
  · refine ⟨st, _, fun fuel _ => if_pos hneg₁, ?_⟩
    exact fileDone_early hneg₁ rfl rfl rfl fun _ => hout₁
  obtain ⟨⟨fd, os₂⟩, hopen⟩ : ∃ answer, sys.openFile os₁ path = answer := ⟨_, rfl⟩
  simp only [hopen]
  by_cases hfd : fd < 0
  · refine ⟨fd, _, fun fuel _ => if_pos hfd, ?_⟩
    refine fileDone_early hfd ?_ rfl rfl fun _ => hout₁
    simp [opened, Machine.setArenaOffset, Machine.setObject, hfd]
  simp only [if_neg hfd]
  have hf₀ : f.Local (w.set (R.handle out) bufferClearAll) := ⟨hf.temporary_ne, hf.chunk_out⟩
  have hf₁ := hf₀.of_change hc₁
  obtain ⟨loop, m₂, hrun, hdone⟩ := readChunks_done R sys fd
    (m := ⟨w₁, os₂, [.stat answer, .openFile fd]⟩) hstores.owned hf₁
  refine ⟨_, _, fun fuel hfuel => ?_, fileDone_of_loop sys hne (not_lt.mp hfd) rfl hstores.contents_eq
    hstores.arena_eq hout₁ hdone⟩
  have hloop := hrun fuel (by rw [hc₁.capacity_eq]; exact hfuel)
  exact congrArg (Option.map _) hloop

/-- On every system and for every file, both functions return after at most as many reads as the arena
has bytes, and one. At most one descriptor is opened, and it is closed exactly once. On an error the
arena has the offset it had on entry and the output is cleared; on success the output holds the bytes
of all reads, and as text it has no NUL but its terminator. -/
theorem file_reads_finish (sys : System σ) (w : World) (os : σ) (path : ℕ) (arena : Bool) (out : ℕ)
    (f : Frame) (hw : fileArenaIsValid w arena = true → w.Owned) (hf : f.Local w)
    (hne : f.temporary ≠ out) :
    (∃ status m', (∀ fuel > w.arena.capacity,
        kliFileReadAll sys fuel ⟨w, os, []⟩ path arena out f = some (status, m')) ∧
      status ≤ 0 ∧ (opened m'.calls).length ≤ 1 ∧
      closed m'.calls = (opened m'.calls).map castInt ∧
      (status < 0 → m'.world.arena.offset = w.arena.offset ∧
        (out ≠ 0 → m'.world.objects (.buffer out) = bufferClearAll)) ∧
      (status = 0 → m'.world.contents (.buffer out) = chunksRead m'.calls)) ∧
    ∃ status m', (∀ fuel > w.arena.capacity,
        kliFileReadText sys fuel ⟨w, os, []⟩ path arena out f = some (status, m')) ∧
      status ≤ 0 ∧ (opened m'.calls).length ≤ 1 ∧
      closed m'.calls = (opened m'.calls).map castInt ∧
      (status < 0 → m'.world.arena.offset = w.arena.offset ∧
        (out ≠ 0 → m'.world.objects (.string out) = bufferClearAll)) ∧
      (status = 0 → m'.world.contents (.string out) = chunksRead m'.calls ∧
        0 ∉ m'.world.contents (.string out) ∧
        (m'.world.objects (.string out)).length < (m'.world.objects (.string out)).capacity ∧
        m'.world.mem ((m'.world.objects (.string out)).data +
          (m'.world.objects (.string out)).length) = 0) := by
  constructor
  · obtain ⟨status, m', hrun, h⟩ := fileRead_done bufferReader sys os path arena out hw hf hne
    exact ⟨status, m', hrun, h.status_le, h.opened_le, h.closed_eq, h.failure,
      fun h0 => (h.success h0).1⟩
  · obtain ⟨status, m', hrun, h⟩ := fileRead_done stringReader sys os path arena out hw hf hne
    refine ⟨status, m', hrun, h.status_le, h.opened_le, h.closed_eq, h.failure, fun h0 => ?_⟩
    obtain ⟨hcontents, w₁, hw₁, hmem, hobject, harena⟩ := h.success h0
    obtain ⟨hlt, hnul, htext⟩ := hw₁.terminated f.temporary harena
    have hobject' : w₁.objects (.string f.temporary) = m'.world.objects (.string out) := hobject
    rw [contents, hobject', hmem] at htext
    rw [hobject'] at hlt hnul
    exact ⟨hcontents, htext, hlt, hmem ▸ hnul⟩

def twoByteSystem : System ℕ where
  stat n _ := (⟨0, armFileTypeRegular, 2⟩, n)
  openFile n _ := (3, n)
  read n _ := ((if n < 2 then 1 else 0, fun _ => 65), n + 1)
  close n _ := (0, n)

theorem file_reads_finish_two_bytes :
    let w := start (fun _ => 0) ⟨0x1000, 64, 0, 0⟩
    (kliFileReadAll twoByteSystem 65 ⟨w, 0, []⟩ 1 true 8 ⟨16, 0x200⟩).map
      (fun r => (r.1, r.2.world.contents (.buffer 8), closed r.2.calls)) = some (0, [65, 65], [3]) ∧
    ∃ status m', (∀ fuel > 64, kliFileReadAll twoByteSystem fuel ⟨w, 0, []⟩ 1 true 8 ⟨16, 0x200⟩ =
      some (status, m')) ∧ closed m'.calls = (opened m'.calls).map castInt := by
  intro w
  refine ⟨by decide +kernel, ?_⟩
  obtain ⟨status, m', hrun, -, -, hclosed, -⟩ :=
    (file_reads_finish twoByteSystem w 0 1 true 8 ⟨16, 0x200⟩
      (fun _ => owned_start _ ⟨by decide, by decide, by decide⟩) ⟨by decide, by decide⟩ (by decide)).1
  exact ⟨status, m', hrun, hclosed⟩

end Libkarm
