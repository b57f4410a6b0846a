import IsolationServer.LittleEndian
import IsolationServer.Messages

/-!
# The read loop of a client socket

Every read overwrites the front of one buffer of 4096 bytes. The completion
looks for the magic, the type and the total length at fixed offsets of the
buffer, whatever the number of bytes received, and hands a packet on only if the
total length is the number of bytes of this one read.
-/
namespace IsolationServer.ReadLoop
open LittleEndian

/-- `BufferSize::RECV_BUFFER_SIZE`. -/
def recvBufferSize : ℕ := 4096

/-- `_recvBuffer`, with whatever earlier reads or the allocator left in it. -/
structure RecvBuffer where
  bytes : Bytes
  size : bytes.length = recvBufferSize

/-- A read overwrites the first bytes of the buffer. -/
def RecvBuffer.receive (b : RecvBuffer) (data : Bytes) : RecvBuffer where
  bytes := (data ++ b.bytes.drop data.length).take recvBufferSize
  size := by
    have hb := b.size
    simp only [List.length_take, List.length_append, List.length_drop]
    omega

def RecvBuffer.byteAt (b : RecvBuffer) (i : ℕ) : UInt8 := b.bytes.getD i 0

/-- `*(int32_t *)(&buffer[i])` on a little-endian host. -/
def RecvBuffer.int32At (b : RecvBuffer) (i : ℕ) : Int32 :=
  (wordLe (b.byteAt i) (b.byteAt (i + 1)) (b.byteAt (i + 2)) (b.byteAt (i + 3))).toInt32

/-- A call of `HandlePacket`: the type, the bytes that `data` and `length`
delimit, and `length` itself. -/
structure PacketCall where
  type : Int32
  payload : Bytes
  length : Int32
  deriving DecidableEq

/-- The part of the completion between the tests for an error and the next
read. `totalDataLength` is converted to `size_t` for the comparison, and
`length - 12` is computed as `size_t` and converted to `int`. -/
def dispatch (buffer : RecvBuffer) (length : UInt64) : Option PacketCall :=
  if buffer.bytes.take 4 = str "prot" then
    let type := buffer.int32At 4
    let totalDataLength := buffer.int32At 8
    if toSize totalDataLength ≠ length then none
    else
      let n := toInt (length - 12)
      some ⟨type, (buffer.bytes.drop 12).take n.toInt.toNat, n⟩
  else none

/-- A completed `async_read_some`: the bytes received and whether it failed. -/
structure ReadResult where
  data : Bytes
  failed : Bool := false

inductive Outcome where
  | handleError
  | readAgain (call : Option PacketCall)

/-- The completion handler of `ReadAsync`. Its inner test for a length of zero
is never reached. -/
def readCompleted (buffer : RecvBuffer) (r : ReadResult) : Outcome :=
  if r.data.length = 0 then .handleError
  else if r.failed = false then .readAgain (dispatch buffer (UInt64.ofNat r.data.length))
  else .handleError

/-- The calls of `HandlePacket` that a sequence of reads leads to. -/
def readLoop (buffer : RecvBuffer) : List ReadResult → List PacketCall
  | [] => []
  | r :: rs =>
    match readCompleted (buffer.receive r.data) r with
    | .handleError => []
    | .readAgain call => call.toList ++ readLoop (buffer.receive r.data) rs

/-! ## Conversions between `int` and `size_t` -/

section Conversions

theorem appendIntVecCharLe_eq (buffer : Bytes) (v : Int32) :
    appendIntVecCharLe buffer v = buffer ++ bytesLe v.toUInt32 := by
  have h0 : lowByte v = UInt8.ofNat v.toUInt32.toNat := by
    have hzero : lowByte v = lowByte (v >>> 0) := by simp
    have h := setWidth_sshiftRight_and v.toBitVec 0 (by omega)
    rw [Nat.pow_zero, Nat.div_one] at h
    rw [hzero]
    exact UInt8.toBitVec_inj.mp h
  have h1 : lowByte (v >>> 8) = UInt8.ofNat (v.toUInt32.toNat / 256) :=
    UInt8.toBitVec_inj.mp (setWidth_sshiftRight_and v.toBitVec 8 (by omega))
  have h2 : lowByte (v >>> 16) = UInt8.ofNat (v.toUInt32.toNat / 65536) :=
    UInt8.toBitVec_inj.mp (setWidth_sshiftRight_and v.toBitVec 16 (by omega))
  have h3 : lowByte (v >>> 24) = UInt8.ofNat (v.toUInt32.toNat / 16777216) :=
    UInt8.toBitVec_inj.mp (setWidth_sshiftRight_and v.toBitVec 24 (by omega))
  rw [appendIntVecCharLe, h0, h1, h2, h3, bytesLe]

theorem toSize_eq_iff (v : Int32) (n : ℕ) (hn : n < 2 ^ 31) :
    toSize v = UInt64.ofNat n ↔ v.toUInt32 = UInt32.ofNat n := by
  constructor
  · intro h
    have hwide : v.toInt64 = Int64.ofNat n := congrArg UInt64.toInt64 h
    have hint := congrArg Int64.toInt hwide
    rw [Int32.toInt_toInt64, Int64.toInt_ofNat_of_lt (by omega),
      ← Int32.toInt_ofNat_of_lt hn] at hint
    rw [Int32.toInt_inj.mp hint, Int32.toUInt32_ofNat']
  · intro h
    have hv : v = Int32.ofNat n := congrArg UInt32.toInt32 h
    have hwide : v.toInt64 = Int64.ofNat n := by
      apply Int64.toInt_inj.mp
      rw [Int32.toInt_toInt64, hv, Int32.toInt_ofNat_of_lt hn, Int64.toInt_ofNat_of_lt (by omega)]
    exact congrArg Int64.toUInt64 hwide

/-- The `length` argument is the number of bytes received less the header, as a
signed number. -/
theorem toInt_length (n : ℕ) (hn : n ≤ recvBufferSize) :
    (toInt (UInt64.ofNat n - 12)).toInt = (n : ℤ) - 12 := by
  unfold recvBufferSize at hn
  have hsub : (UInt64.ofNat n - 12).toNat = (2 ^ 64 - 12 + n) % 2 ^ 64 := by
    rw [UInt64.toNat_sub, UInt64.toNat_ofNat']
    show (2 ^ 64 - 12 + n % 2 ^ 64) % 2 ^ 64 = _
    omega
  have hint : toInt (UInt64.ofNat n - 12) = Int32.ofNat (UInt64.ofNat n - 12).toNat := rfl
  have hsize : (Int32.size : ℤ) = 4294967296 := rfl
  rw [hint, Int32.toInt_ofNat', hsub, Int.bmod_def, hsize]
  push_cast
  split_ifs <;> omega

end Conversions

/-! ## The header -/

section Header

/-- The twelve bytes in front of a payload, for a packet of `n` bytes. -/
def header (type : Int32) (n : ℕ) : Bytes :=
  str "prot" ++ bytesLe type.toUInt32 ++ bytesLe (UInt32.ofNat n)

@[simp] theorem length_header (type : Int32) (n : ℕ) : (header type n).length = 12 := rfl

theorem exists_header_bytes {l : Bytes} (h : 12 ≤ l.length) :
    ∃ m0 m1 m2 m3 t0 t1 t2 t3 n0 n1 n2 n3 rest,
      l = [m0, m1, m2, m3] ++ [t0, t1, t2, t3] ++ [n0, n1, n2, n3] ++ rest := by
  match l, h with
  | m0 :: m1 :: m2 :: m3 :: t0 :: t1 :: t2 :: t3 :: n0 :: n1 :: n2 :: n3 :: rest, _ =>
    exact ⟨m0, m1, m2, m3, t0, t1, t2, t3, n0, n1, n2, n3, rest, rfl⟩

/-- The first twelve bytes are a header exactly if the three fields are found at
their offsets. -/
theorem take_eq_header_iff (b : RecvBuffer) (type : Int32) (n : ℕ) (hn : n < 2 ^ 31) :
    b.bytes.take 12 = header type n ↔ b.bytes.take 4 = str "prot" ∧ b.int32At 4 = type ∧
      toSize (b.int32At 8) = UInt64.ofNat n := by
  have hlen : 12 ≤ b.bytes.length := by
    rw [b.size]
    decide
  obtain ⟨m0, m1, m2, m3, t0, t1, t2, t3, n0, n1, n2, n3, rest, hb⟩ := exists_header_bytes hlen
  have htype : b.int32At 4 = type ↔ [t0, t1, t2, t3] = bytesLe type.toUInt32 := by
    rw [eq_bytesLe_iff]
    simp only [RecvBuffer.int32At, RecvBuffer.byteAt, hb]
    exact ⟨fun h => congrArg Int32.toUInt32 h, fun h => congrArg UInt32.toInt32 h⟩
  have htotal : toSize (b.int32At 8) = UInt64.ofNat n ↔
      [n0, n1, n2, n3] = bytesLe (UInt32.ofNat n) := by
    rw [toSize_eq_iff _ n hn, eq_bytesLe_iff]
    simp only [RecvBuffer.int32At, RecvBuffer.byteAt, hb]
    exact Iff.rfl
  have hmagic : b.bytes.take 4 = [m0, m1, m2, m3] := by simp [hb]
  have hhead : b.bytes.take 12 = [m0, m1, m2, m3] ++ [t0, t1, t2, t3] ++ [n0, n1, n2, n3] := by
    simp [hb]
  rw [hhead, hmagic, htype, htotal, header]
  constructor
  · intro h
    obtain ⟨h12, h3⟩ := List.append_inj h rfl
    obtain ⟨h1, h2⟩ := List.append_inj h12 rfl
    exact ⟨h1, h2, h3⟩
  · rintro ⟨h1, h2, h3⟩
    rw [h1, h2, h3]

/-- What a completion hands on: the header is complete in the buffer, and its
length is the number of bytes received. -/
theorem dispatch_eq_some_iff (b : RecvBuffer) {n : ℕ} (hn : n ≤ recvBufferSize) (c : PacketCall) :
    dispatch b (UInt64.ofNat n) = some c ↔ b.bytes.take 12 = header c.type n ∧
      c.payload = (b.bytes.drop 12).take (n - 12) ∧ c.length.toInt = (n : ℤ) - 12 := by
  have hbound : n < 2 ^ 31 := by
    unfold recvBufferSize at hn
    omega
  have hlen := toInt_length n hn
  have hnat : (toInt (UInt64.ofNat n - 12)).toInt.toNat = n - 12 := by
    rw [hlen]
    omega
  rw [take_eq_header_iff b c.type n hbound]
  by_cases hmagic : b.bytes.take 4 = str "prot"
  · by_cases htotal : toSize (b.int32At 8) = UInt64.ofNat n
    · have hcall : dispatch b (UInt64.ofNat n) = some ⟨b.int32At 4,
          (b.bytes.drop 12).take (n - 12), toInt (UInt64.ofNat n - 12)⟩ := by
        simp [dispatch, hmagic, htotal, hnat]
      rw [hcall, Option.some.injEq]
      constructor
      · rintro rfl
        exact ⟨⟨hmagic, rfl, htotal⟩, rfl, hlen⟩
      · rintro ⟨⟨-, htype, -⟩, hpayload, hlength⟩
        have hl : toInt (UInt64.ofNat n - 12) = c.length :=
          Int32.toInt_inj.mp (hlen.trans hlength.symm)
        rw [htype, hl, ← hpayload]
    · simp [dispatch, htotal]
  · simp [dispatch, hmagic]

theorem receive_bytes (b : RecvBuffer) {data : Bytes} (h : data.length ≤ recvBufferSize) :
    (b.receive data).bytes = data ++ b.bytes.drop data.length := by
  apply List.take_of_length_le
  rw [List.length_append, List.length_drop, b.size]
  omega

/-- A read that holds a header is handed on exactly if it is the header followed
by the payload, whatever the buffer held before. -/
theorem dispatch_receive_iff (b : RecvBuffer) {data : Bytes} (h12 : 12 ≤ data.length)
    (h : data.length ≤ recvBufferSize) (c : PacketCall) :
    dispatch (b.receive data) (UInt64.ofNat data.length) = some c ↔
      data = header c.type data.length ++ c.payload ∧ c.length.toInt = (data.length : ℤ) - 12 := by
  rw [dispatch_eq_some_iff _ h, receive_bytes b h, List.take_append_of_le_length h12,
    List.drop_append_of_le_length h12, ← and_assoc]
  refine and_congr_left fun _ => ?_
  have hrest : (data.drop 12 ++ b.bytes.drop data.length).take (data.length - 12) =
      data.drop 12 := by
    rw [← List.length_drop, List.take_left]
  rw [hrest]
  constructor
  · rintro ⟨hhead, hpayload⟩
    rw [← hhead, hpayload, List.take_append_drop]
  · intro hdata
    constructor
    · rw [hdata, List.take_left' (length_header _ _)]
      rw [← hdata]
    · rw [hdata, List.drop_left' (length_header _ _)]

end Header

/-! ## Packets and reads -/

section Packets

/-- A packet that fits into the receive buffer. -/
structure Packet where
  type : Int32
  payload : Bytes
  fits : 12 + payload.length ≤ recvBufferSize

/-- The packet as `append_prot_packet` and its callers build it. -/
def Packet.bytes (p : Packet) : Bytes :=
  appendProtPacket [] p.type (UInt64.ofNat (12 + p.payload.length)) ++ p.payload

def Packet.call (p : Packet) : PacketCall := ⟨p.type, p.payload, Int32.ofNat p.payload.length⟩

theorem Packet.bytes_eq (p : Packet) :
    p.bytes = header p.type (12 + p.payload.length) ++ p.payload := by
  have hfits := p.fits
  unfold recvBufferSize at hfits
  have hlen : (toInt (UInt64.ofNat (12 + p.payload.length))).toUInt32 =
      UInt32.ofNat (12 + p.payload.length) := by
    apply UInt32.toNat_inj.mp
    rw [toInt, UInt32.toUInt32_toInt32, UInt64.toNat_toUInt32, UInt64.toNat_ofNat',
      UInt32.toNat_ofNat']
    omega
  rw [bytes, appendProtPacket, appendIntVecCharLe_eq, appendIntVecCharLe_eq, hlen, header]
  rfl

theorem Packet.length_bytes (p : Packet) : p.bytes.length = 12 + p.payload.length := by
  rw [p.bytes_eq, List.length_append, length_header]

theorem Packet.call_length (p : Packet) : p.call.length.toInt = p.payload.length := by
  have hfits := p.fits
  unfold recvBufferSize at hfits
  exact Int32.toInt_ofNat_of_lt (by omega)

/-- A read is handed on as the packet `p` exactly if it is `p` and nothing else. -/
theorem dispatch_eq_call_iff (b : RecvBuffer) {data : Bytes} (h : data.length ≤ recvBufferSize)
    (p : Packet) :
    dispatch (b.receive data) (UInt64.ofNat data.length) = some p.call ↔ data = p.bytes := by
  have hcall := p.call_length
  constructor
  · intro hd
    have hlength := ((dispatch_eq_some_iff _ h _).mp hd).2.2
    have h12 : data.length = 12 + p.payload.length := by omega
    have hdata := ((dispatch_receive_iff b (by omega) h _).mp hd).1
    rw [p.bytes_eq, ← h12]
    exact hdata
  · rintro rfl
    have hlen := p.length_bytes
    rw [dispatch_receive_iff b (by omega) h, hlen]
    refine ⟨p.bytes_eq, ?_⟩
    rw [hcall]
    push_cast
    omega

theorem readLoop_cons (b : RecvBuffer) {data : Bytes} (h : data ≠ []) (rs : List ReadResult) :
    readLoop b (⟨data, false⟩ :: rs) =
      (dispatch (b.receive data) (UInt64.ofNat data.length)).toList ++
        readLoop (b.receive data) rs := by
  have hlen : data.length ≠ 0 := by simpa using h
  simp [readLoop, readCompleted, hlen]

/-- The packets handed on are among the bytes read, and use them all up only if
every read is one packet. -/
theorem reads_of_calls (reads : List Bytes) (b : RecvBuffer) (packets : List Packet)
    (hreads : ∀ data ∈ reads, data ≠ [] ∧ data.length ≤ recvBufferSize)
    (hcalls : readLoop b (reads.map fun data => ⟨data, false⟩) = packets.map Packet.call) :
    (packets.map Packet.bytes).flatten.length ≤ reads.flatten.length ∧
      ((packets.map Packet.bytes).flatten.length = reads.flatten.length →
        reads = packets.map Packet.bytes) := by
  induction reads generalizing b packets with
  | nil =>
    have hnil : packets = [] := by simpa [readLoop] using hcalls
    simp [hnil]
  | cons data reads ih =>
    obtain ⟨hne, hfit⟩ := hreads data List.mem_cons_self
    have hpos : 0 < data.length := List.length_pos_iff.mpr hne
    have hrest : ∀ d ∈ reads, d ≠ [] ∧ d.length ≤ recvBufferSize :=
      fun d hd => hreads d (List.mem_cons_of_mem _ hd)
    rw [List.map_cons, readLoop_cons b hne] at hcalls
    cases hd : dispatch (b.receive data) (UInt64.ofNat data.length) with
    | none =>
      rw [hd, Option.toList_none, List.nil_append] at hcalls
      obtain ⟨hle, -⟩ := ih (b.receive data) packets hrest hcalls
      rw [List.flatten_cons, List.length_append]
      exact ⟨by omega, fun heq => by omega⟩
    | some c =>
      rw [hd, Option.toList_some, List.singleton_append] at hcalls
      cases packets with
      | nil => cases hcalls
      | cons p packets =>
        obtain ⟨hc, htail⟩ := List.cons.inj hcalls
        rw [hc, dispatch_eq_call_iff b hfit] at hd
        obtain ⟨hle, heq⟩ := ih (b.receive data) packets hrest htail
        subst hd
        simp only [List.map_cons, List.flatten_cons, List.length_append]
        refine ⟨by omega, fun h => ?_⟩
        rw [heq (by omega)]

/-- Framing: a stream of packets that arrives in some sequence of reads leads to
exactly the calls for these packets if and only if every read is one whole
packet. -/
theorem calls_eq_packets_iff (b : RecvBuffer) (packets : List Packet) (reads : List Bytes)
    (hreads : ∀ data ∈ reads, data ≠ [] ∧ data.length ≤ recvBufferSize)
    (hcut : reads.flatten = (packets.map Packet.bytes).flatten) :
    readLoop b (reads.map fun data => ⟨data, false⟩) = packets.map Packet.call ↔
      reads = packets.map Packet.bytes := by
  constructor
  · intro hcalls
    exact (reads_of_calls reads b packets hreads hcalls).2 (by rw [hcut])
  · rintro rfl
    clear hcut
    induction packets generalizing b with
    | nil => rfl
    | cons p packets ih =>
      obtain ⟨hne, hfit⟩ := hreads p.bytes List.mem_cons_self
      have hrest := ih (b.receive p.bytes) fun d hd => hreads d (List.mem_cons_of_mem _ hd)
      rw [List.map_cons, List.map_cons, readLoop_cons b hne, hrest,
        (dispatch_eq_call_iff b hfit p).mpr rfl]
      rfl

/-- A buffer of zeros. -/
def zeroBuffer : RecvBuffer := ⟨List.replicate recvBufferSize 0, List.length_replicate⟩

def firstPacket : Packet := ⟨3, [1, 2], by decide⟩

def secondPacket : Packet := ⟨5, [], by decide⟩

theorem calls_eq_packets_one_by_one :
    readLoop zeroBuffer ([firstPacket.bytes, secondPacket.bytes].map fun data => ⟨data, false⟩) =
      [⟨3, [1, 2], 2⟩, ⟨5, [], 0⟩] :=
  (calls_eq_packets_iff zeroBuffer [firstPacket, secondPacket]
    [firstPacket.bytes, secondPacket.bytes] (by decide +kernel) rfl).mpr rfl

/-- Two packets that arrive in one read are both dropped. -/
theorem coalesced_packets_dropped :
    ¬ ∀ (b : RecvBuffer) (packets : List Packet) (reads : List Bytes),
      (∀ data ∈ reads, data ≠ [] ∧ data.length ≤ recvBufferSize) →
      reads.flatten = (packets.map Packet.bytes).flatten →
      readLoop b (reads.map fun data => ⟨data, false⟩) = packets.map Packet.call := by
  intro hall
  have hvalid : ∀ data ∈ [firstPacket.bytes ++ secondPacket.bytes],
      data ≠ [] ∧ data.length ≤ recvBufferSize := by decide +kernel
  have hcut : [firstPacket.bytes ++ secondPacket.bytes].flatten =
      ([firstPacket, secondPacket].map Packet.bytes).flatten := by simp
  have hcalls := hall zeroBuffer _ _ hvalid hcut
  have hreads := (reads_of_calls _ _ _ hvalid hcalls).2 (by rw [hcut])
  have hlen := congrArg List.length hreads
  simp at hlen

end Packets

/-! ## Reads shorter than a header -/

section Stale

/-- Whatever the buffer held before, the completion of an error-free read does
the same, and the length that it hands on is that of the payload. -/
def JudgedByOwnBytes (data : Bytes) : Prop :=
  (∀ b b' : RecvBuffer, readCompleted (b.receive data) ⟨data, false⟩ =
    readCompleted (b'.receive data) ⟨data, false⟩) ∧
  ∀ (b : RecvBuffer) (call : PacketCall),
    readCompleted (b.receive data) ⟨data, false⟩ = .readAgain (some call) →
    call.length.toInt = (data.length : ℤ) - 12 ∧ 0 ≤ call.length.toInt

/-- Bytes that agree with the magic and with their own number as far as they
go, so that stale bytes can complete them to a header. -/
def HeaderStart (data : Bytes) : Prop :=
  data.take 4 <+: str "prot" ∧ data.drop 8 <+: bytesLe (UInt32.ofNat data.length)

instance (data : Bytes) : Decidable (HeaderStart data) :=
  inferInstanceAs (Decidable (data.take 4 <+: str "prot" ∧
    data.drop 8 <+: bytesLe (UInt32.ofNat data.length)))

theorem readCompleted_eq (b : RecvBuffer) {data : Bytes} (h : 1 ≤ data.length) :
    readCompleted b ⟨data, false⟩ = .readAgain (dispatch b (UInt64.ofNat data.length)) := by
  have hne : data.length ≠ 0 := by omega
  simp [readCompleted, hne]

/-- Overwriting the front of `stale` keeps a window of it that the new bytes
agree with as far as they go. -/
theorem window_overwrite (data stale x : Bytes) (o : ℕ)
    (hstale : (stale.drop o).take x.length = x) (hpre : (data.drop o).take x.length <+: x) :
    ((data ++ stale.drop data.length).drop o).take x.length = x := by
  apply List.ext_getElem?
  intro i
  by_cases hi : i < x.length
  · rw [List.getElem?_take_of_lt hi, List.getElem?_drop, List.getElem?_append]
    split
    · rename_i hdata
      obtain ⟨t, ht⟩ := hpre
      have hlen : i < ((data.drop o).take x.length).length := by
        rw [List.length_take, List.length_drop]
        omega
      calc data[o + i]? = ((data.drop o).take x.length)[i]? := by
            rw [List.getElem?_take_of_lt hi, List.getElem?_drop]
        _ = ((data.drop o).take x.length ++ t)[i]? := (List.getElem?_append_left hlen).symm
        _ = x[i]? := by rw [ht]
    · rename_i hdata
      calc (stale.drop data.length)[o + i - data.length]? = stale[o + i]? := by
            rw [List.getElem?_drop]
            congr 1
            omega
        _ = ((stale.drop o).take x.length)[i]? := by
            rw [List.getElem?_take_of_lt hi, List.getElem?_drop]
        _ = x[i]? := by rw [hstale]
  · rw [List.getElem?_eq_none (by rw [List.length_take]; omega), List.getElem?_eq_none (by omega)]

/-- A short read that is handed on starts like a header. -/
theorem headerStart_of_dispatch (b : RecvBuffer) {data : Bytes} (h12 : data.length < 12)
    {c : PacketCall} (hd : dispatch (b.receive data) (UInt64.ofNat data.length) = some c) :
    HeaderStart data := by
  have hfit : data.length ≤ recvBufferSize := by
    unfold recvBufferSize
    omega
  have hhead := ((dispatch_eq_some_iff _ hfit c).mp hd).1
  rw [receive_bytes b hfit] at hhead
  have hpre : data <+: data ++ b.bytes.drop data.length := List.prefix_append _ _
  constructor
  · have hmagic : (data ++ b.bytes.drop data.length).take 4 = str "prot" := by
      calc (data ++ b.bytes.drop data.length).take 4
          = ((data ++ b.bytes.drop data.length).take 12).take 4 := by rw [List.take_take]; rfl
        _ = str "prot" := by rw [hhead]; rfl
    rw [← hmagic]
    exact hpre.take 4
  · have htotal : ((data ++ b.bytes.drop data.length).take 12).drop 8 =
        bytesLe (UInt32.ofNat data.length) := by
      rw [hhead]
      rfl
    have hshort : data.take 12 = data := List.take_of_length_le (by omega)
    have hdrop := (hpre.take 12).drop 8
    rwa [hshort, htotal] at hdrop

/-- The buffer left by a read that spells out a header for `n` bytes. -/
def staleHeader (n : ℕ) : RecvBuffer where
  bytes := header 0 n ++ List.replicate 4084 0
  size := by
    rw [List.length_append, length_header, List.length_replicate]
    rfl

/-- Stale bytes complete the start of a header. -/
theorem dispatch_of_headerStart {data : Bytes} (h12 : data.length < 12) (hs : HeaderStart data) :
    ∃ c, dispatch ((staleHeader data.length).receive data) (UInt64.ofNat data.length) = some c := by
  have hfit : data.length ≤ recvBufferSize := by
    unfold recvBufferSize
    omega
  have hbytes := receive_bytes (staleHeader data.length) hfit
  have hmagic := window_overwrite data (staleHeader data.length).bytes (str "prot") 0 rfl hs.1
  have htotal := window_overwrite data (staleHeader data.length).bytes
    (bytesLe (UInt32.ofNat data.length)) 8 rfl ((List.take_prefix _ _).trans hs.2)
  rw [← hbytes] at hmagic htotal
  have hlen : 12 ≤ ((staleHeader data.length).receive data).bytes.length := by
    rw [((staleHeader data.length).receive data).size]
    decide
  obtain ⟨m0, m1, m2, m3, t0, t1, t2, t3, n0, n1, n2, n3, rest, hb⟩ := exists_header_bytes hlen
  rw [hb] at hmagic htotal
  have hm : [m0, m1, m2, m3] = str "prot" := hmagic
  have hn : [n0, n1, n2, n3] = bytesLe (UInt32.ofNat data.length) := htotal
  refine ⟨⟨(wordLe t0 t1 t2 t3).toInt32, _, toInt (UInt64.ofNat data.length - 12)⟩,
    (dispatch_eq_some_iff _ hfit _).mpr ⟨?_, rfl, toInt_length _ hfit⟩⟩
  rw [hb, header, ← hm, ← hn, UInt32.toUInt32_toInt32, bytesLe_wordLe]
  rfl

theorem judged_of_header {data : Bytes} (h12 : 12 ≤ data.length)
    (hfit : data.length ≤ recvBufferSize) : JudgedByOwnBytes data := by
  have h1 : 1 ≤ data.length := by omega
  simp only [JudgedByOwnBytes, readCompleted_eq _ h1, Outcome.readAgain.injEq]
  constructor
  · intro b b'
    apply Option.ext
    intro c
    rw [dispatch_receive_iff b h12 hfit, dispatch_receive_iff b' h12 hfit]
  · intro b c hc
    have hlen := ((dispatch_receive_iff b h12 hfit c).mp hc).2
    omega

/-- A short read is never handed on if it does not start like a header, and is
handed on with a negative length after some earlier read if it does. -/
theorem judged_short_iff {data : Bytes} (h1 : 1 ≤ data.length) (h12 : data.length < 12) :
    JudgedByOwnBytes data ↔ ¬ HeaderStart data := by
  simp only [JudgedByOwnBytes, readCompleted_eq _ h1, Outcome.readAgain.injEq]
  constructor
  · rintro ⟨-, hlength⟩ hs
    obtain ⟨c, hc⟩ := dispatch_of_headerStart h12 hs
    obtain ⟨heq, hnonneg⟩ := hlength _ c hc
    omega
  · intro hs
    have hnone : ∀ b : RecvBuffer,
        dispatch (b.receive data) (UInt64.ofNat data.length) = none := by
      intro b
      rw [Option.eq_none_iff_forall_ne_some]
      intro c hc
      exact hs (headerStart_of_dispatch b h12 hc)
    constructor
    · intro b b'
      rw [hnone, hnone]
    · intro b c hc
      rw [hnone] at hc
      cases hc

/-- A read is judged only by its own bytes if and only if it holds a whole
header, or does not start like one. -/
theorem judgedByOwnBytes_iff (data : Bytes) (h1 : 1 ≤ data.length)
    (hfit : data.length ≤ recvBufferSize) :
    JudgedByOwnBytes data ↔ 12 ≤ data.length ∨ ¬ HeaderStart data := by
  by_cases h12 : 12 ≤ data.length
  · exact iff_of_true (judged_of_header h12 hfit) (.inl h12)
  · rw [judged_short_iff h1 (by omega)]
    exact ⟨.inr, fun h => h.resolve_left h12⟩

theorem judgedByOwnBytes_second_packet : JudgedByOwnBytes secondPacket.bytes :=
  (judgedByOwnBytes_iff secondPacket.bytes (by decide) (by decide)).mpr (.inl (by decide))

/-- The magic and a type alone, without a length. -/
def shortRead : Bytes := str "prot" ++ [3, 0, 0, 0]

theorem short_read_judged_by_stale_bytes :
    ¬ ∀ data : Bytes, 1 ≤ data.length → data.length ≤ recvBufferSize → JudgedByOwnBytes data := by
  intro hall
  have hjudged := hall shortRead (by decide) (by decide)
  exact (judged_short_iff (by decide) (by decide)).mp hjudged (by decide)

end Stale

end IsolationServer.ReadLoop
