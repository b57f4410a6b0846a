import IsolationServer.Footprints
import IsolationServer.ReadLoop

/-!
# Packets on the wire

A frame is the header and the payload. What `append_prot_packet` and its callers
build is a frame, a read that is dispatched is one, and so is every response that
a handler posts, whatever its commands are answered.
-/
namespace IsolationServer.WireFormat
open CommandPrograms LittleEndian ReadLoop

/-- A payload behind its header. -/
def frame (type : Int32) (payload : Bytes) : Bytes := header type (payload.length + 12) ++ payload

/-- The type of the packet that carries a response. -/
def responseType (gen : Generated) : Response → Int32
  | .registerAccount _ => gen.responseRegisterAccount
  | .login _ => gen.responseLogin
  | .playerData _ => gen.responsePlayerData

/-- Every packet that the handler can post, whatever its commands are answered, is
the frame of a response of this type. -/
def PostsFrames (gen : Generated) (client : Token) (type : Int32) (handler : Handler Unit) : Prop :=
  Issues (fun c => ∀ u response, c = .postWrite u response → u = client ∧
    ((gen.serialize response).length < 2 ^ 31 - 12 →
      response.packet gen = frame type (gen.serialize response))) handler

section Headers

variable (n : ℕ)

theorem toInt_toSize (v : Int32) : toInt (toSize v) = v := by
  have hbits : (v.toBitVec.signExtend 64).setWidth 32 = v.toBitVec := by
    ext i hi
    rw [BitVec.getElem_setWidth, BitVec.getLsbD_signExtend, if_pos hi,
      BitVec.getLsbD_eq_getElem hi]
    simp [show i < 64 by omega]
  apply Int32.toBitVec_inj.mp
  exact (UInt64.toBitVec_toUInt32 _).trans hbits

theorem toUInt32_toInt_ofNat : (toInt (UInt64.ofNat n)).toUInt32 = UInt32.ofNat n := by
  apply UInt32.toNat_inj.mp
  rw [toInt, UInt32.toUInt32_toInt32, UInt64.toNat_toUInt32, UInt64.toNat_ofNat',
    UInt32.toNat_ofNat']
  omega

theorem toUInt32_toInt_packetLength :
    (toInt (packetLength n)).toUInt32 = UInt32.ofNat (n + 12) := by
  have hadd : UInt64.ofNat n + 12 = UInt64.ofNat (n + 12) := (UInt64.ofNat_add n 12).symm
  rw [packetLength, toInt_toSize, hadd, toUInt32_toInt_ofNat]

theorem toUInt32_toInt_loginPacketLength :
    (toInt (loginPacketLength n)).toUInt32 = UInt32.ofNat (n + 12) := by
  rw [loginPacketLength, toInt_toSize, Int32.toUInt32_add, toUInt32_toInt_ofNat, UInt32.ofNat_add]
  rfl

theorem appendProtPacket_eq (type : Int32) {len : UInt64} {n : ℕ}
    (h : (toInt len).toUInt32 = UInt32.ofNat n) : appendProtPacket [] type len = header type n := by
  rw [appendProtPacket, appendIntVecCharLe_eq, appendIntVecCharLe_eq, h, header, List.nil_append]

end Headers

section Frames

/-- What `append_prot_packet` writes in front of a payload makes it a frame. -/
theorem appendProtPacket_append (type : Int32) (payload : Bytes) :
    appendProtPacket [] type (UInt64.ofNat (payload.length + 12)) ++ payload =
      frame type payload := by
  rw [appendProtPacket_eq type (toUInt32_toInt_ofNat _), frame]

@[simp] theorem length_frame (type : Int32) (payload : Bytes) :
    (frame type payload).length = payload.length + 12 := by
  rw [frame, List.length_append, length_header]
  omega

/-- A read of a header or more is handed on exactly if it is a frame. -/
theorem readCompleted_frame_iff (b : RecvBuffer) {data : Bytes} (h12 : 12 ≤ data.length)
    (h : data.length ≤ recvBufferSize) (c : PacketCall) :
    readCompleted (b.receive data) ⟨data, false⟩ = .readAgain (some c) ↔
      data = frame c.type c.payload ∧ c.length.toInt = c.payload.length := by
  rw [readCompleted_eq _ (by omega), Outcome.readAgain.injEq, dispatch_receive_iff b h12 h, frame]
  constructor
  · rintro ⟨hdata, hlength⟩
    have hlen := congrArg List.length hdata
    rw [List.length_append, length_header] at hlen
    rw [Nat.add_comm, ← hlen]
    exact ⟨hdata, by omega⟩
  · rintro ⟨hdata, hlength⟩
    have hlen := congrArg List.length hdata
    rw [List.length_append, length_header] at hlen
    rw [hlen, Nat.add_comm 12]
    exact ⟨hdata, by omega⟩

/-- Bytes with the magic and their own number in the header are the frame of the rest. -/
theorem exists_frame_iff {data : Bytes} (h12 : 12 ≤ data.length) :
    (∃ type payload, data = frame type payload) ↔
      data.take 4 = str "prot" ∧ (data.drop 8).take 4 = bytesLe (UInt32.ofNat data.length) := by
  constructor
  · rintro ⟨type, payload, rfl⟩
    rw [length_frame]
    exact ⟨rfl, rfl⟩
  · rintro ⟨hmagic, hlength⟩
    obtain ⟨m0, m1, m2, m3, t0, t1, t2, t3, n0, n1, n2, n3, rest, hdata⟩ := exists_header_bytes h12
    have hlen : data.length = rest.length + 12 := by
      rw [hdata]
      simp only [List.length_append, List.length_cons, List.length_nil]
      omega
    have htype : bytesLe (wordLe t0 t1 t2 t3).toInt32.toUInt32 = [t0, t1, t2, t3] := by
      rw [UInt32.toUInt32_toInt32, bytesLe_wordLe]
    refine ⟨(wordLe t0 t1 t2 t3).toInt32, rest, ?_⟩
    rw [frame, header, htype, ← hlen, ← hmagic, ← hlength, hdata]
    rfl

/-- A read of a header or more is dropped exactly if the magic or its length is wrong. -/
theorem readCompleted_dropped_iff (b : RecvBuffer) {data : Bytes} (h12 : 12 ≤ data.length)
    (h : data.length ≤ recvBufferSize) :
    readCompleted (b.receive data) ⟨data, false⟩ = .readAgain none ↔
      data.take 4 ≠ str "prot" ∨ (data.drop 8).take 4 ≠ bytesLe (UInt32.ofNat data.length) := by
  rw [← not_and_or, ← exists_frame_iff h12]
  constructor
  · rintro hnone ⟨type, payload, hdata⟩
    have hlen := congrArg List.length hdata
    rw [length_frame] at hlen
    unfold recvBufferSize at h
    have hsome := (readCompleted_frame_iff b h12 h ⟨type, payload, Int32.ofNat payload.length⟩).mpr
      ⟨hdata, Int32.toInt_ofNat_of_lt (by omega)⟩
    rw [hnone] at hsome
    cases hsome
  · intro hframe
    have hread := readCompleted_eq (b.receive data) (show 1 ≤ data.length by omega)
    rw [hread]
    refine congrArg _ (Option.eq_none_iff_forall_ne_some.mpr fun c hc => hframe ?_)
    rw [hc] at hread
    exact ⟨c.type, c.payload, ((readCompleted_frame_iff b h12 h c).mp hread).1⟩

/-- The packet of a response is its frame. -/
theorem packet_eq_frame (gen : Generated) (response : Response) :
    response.packet gen = frame (responseType gen response) (gen.serialize response) := by
  cases response with
  | registerAccount m =>
    exact congrArg (· ++ _) (appendProtPacket_eq _ (toUInt32_toInt_packetLength _))
  | login m => exact congrArg (· ++ _) (appendProtPacket_eq _ (toUInt32_toInt_loginPacketLength _))
  | playerData m => exact congrArg (· ++ _) (appendProtPacket_eq _ (toUInt32_toInt_packetLength _))

end Frames

section Handlers

variable {gen : Generated} {client : Token} {type : Int32}

/-- A handler that posts responses of one type only. -/
theorem postsFrames_of_issues {Q : Command → Prop} {handler : Handler Unit}
    (h : Issues Q handler)
    (hQ : ∀ u response, Q (.postWrite u response) → u = client ∧ responseType gen response = type) :
    PostsFrames gen client type handler := by
  refine h.mono fun c hc u response hpost => ?_
  subst hpost
  obtain ⟨hu, htype⟩ := hQ u response hc
  refine ⟨hu, fun _ => ?_⟩
  rw [packet_eq_frame, htype]

theorem postsFrames_creationAccount (data : Bytes) : PostsFrames gen client
    gen.responseRegisterAccount (handleRequestCreationAccount gen client data) := by
  refine postsFrames_of_issues (issues_creationAccount gen client data) fun u response h => ?_
  cases response with
  | registerAccount m => exact ⟨h, rfl⟩
  | login | playerData => exact h.elim

theorem postsFrames_login (data : Bytes) (now : ℕ) : PostsFrames gen client
    gen.responseLogin (handleRequestLogin gen client data now) := by
  refine postsFrames_of_issues (issues_login gen client data now) fun u response h => ?_
  cases response with
  | login m => exact ⟨h, rfl⟩
  | registerAccount | playerData => exact h.elim

theorem postsFrames_playerData (data : Bytes) : PostsFrames gen client
    gen.responsePlayerData (handleRequestPlayerData gen client data) := by
  refine postsFrames_of_issues (issues_playerData gen client data) fun u response h => ?_
  cases response with
  | playerData m => exact ⟨h, rfl⟩
  | registerAccount | login => exact h.elim

/-- Decoding undoes encoding: a packet that is built by the server's own encoder and
received in one read is handed on as it is, only such packets are handed on, and all
responses of the handlers are such packets. -/
theorem decode_undoes_encode (gen : Generated) :
    (∀ (b : RecvBuffer) (type : Int32) (payload data : Bytes), payload.length ≤ 4084 →
      data = appendProtPacket [] type (UInt64.ofNat (payload.length + 12)) ++ payload →
      readCompleted (b.receive data) ⟨data, false⟩ =
        .readAgain (some ⟨type, payload, Int32.ofNat payload.length⟩)) ∧
    (∀ (b : RecvBuffer) (data : Bytes) (c : PacketCall), 12 ≤ data.length →
      data.length ≤ recvBufferSize →
      readCompleted (b.receive data) ⟨data, false⟩ = .readAgain (some c) →
      data = appendProtPacket [] c.type (UInt64.ofNat (c.payload.length + 12)) ++ c.payload ∧
        c.length.toInt = c.payload.length) ∧
    (∀ (client : Token) (data : Bytes) (now : ℕ),
      PostsFrames gen client gen.responseRegisterAccount
        (handleRequestCreationAccount gen client data) ∧
      PostsFrames gen client gen.responseLogin (handleRequestLogin gen client data now) ∧
      PostsFrames gen client gen.responsePlayerData
        (handleRequestPlayerData gen client data)) := by
  refine ⟨fun b type payload data hfits hdata => ?_, fun b data c h12 h hread => ?_,
    fun client data now => ?_⟩
  · rw [appendProtPacket_append] at hdata
    have hlen := congrArg List.length hdata
    rw [length_frame] at hlen
    refine (readCompleted_frame_iff b (by omega) ?_ _).mpr ⟨hdata, ?_⟩
    · unfold recvBufferSize
      omega
    · exact Int32.toInt_ofNat_of_lt (by omega)
  · rw [appendProtPacket_append]
    exact (readCompleted_frame_iff b h12 h c).mp hread
  · exact ⟨postsFrames_creationAccount data, postsFrames_login data now,
      postsFrames_playerData data⟩

/-- A packet of a negative type. -/
theorem decode_undoes_encode_negative :
    readCompleted (zeroBuffer.receive (frame (-1) [1, 2])) ⟨frame (-1) [1, 2], false⟩ =
      .readAgain (some ⟨-1, [1, 2], 2⟩) ∧
    frame (-1) [1, 2] = appendProtPacket [] (-1) 14 ++ [1, 2] ∧
    PostsFrames wireGenerated 1 4 (handleRequestLogin wireGenerated 1 sampleLogin 0) := by
  have hread := (decode_undoes_encode wireGenerated).1 zeroBuffer (-1) [1, 2]
    (frame (-1) [1, 2]) (by decide) (by decide)
  exact ⟨hread, ((decode_undoes_encode wireGenerated).2.1 zeroBuffer _ _ (by decide) (by decide)
    hread).1, ((decode_undoes_encode wireGenerated).2.2 1 sampleLogin 0).2.1⟩

end Handlers

end IsolationServer.WireFormat
