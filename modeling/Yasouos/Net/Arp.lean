import Yasouos.Net.ByteOrder

/-!
# ARP frames

`apps/network/arp/arp.c`: the request and the reply, Ethernet header included, and the
parser. The builders take addresses in host order; the parser copies the header as it is in
memory, so its fields are in network order.

## The model

`arpBuildRequest` and `arpBuildReply` store the fields in the order of the source, and
`arpParse` loads them as the host does.

## What is proved

`arpBuildRequest_eq` and `arpBuildReply_eq` give the forty-two bytes of the frames, and
`isReply_arpReply` what the parser makes of a reply.
-/

namespace Yasouos.Net

open Yasouos.Theory

/-- `ETH_P_ARP`. -/
abbrev ethPArp : UInt16 := 0x0806

/-- `ETH_P_IP`. -/
abbrev ethPIp : UInt16 := 0x0800

/-- `sizeof(eth_hdr_t)`. -/
abbrev sizeofEthHdr : ℕ := 14

/-- `ARP_OP_REQUEST`. -/
abbrev arpOpRequest : UInt16 := 1

/-- `ARP_OP_REPLY`. -/
abbrev arpOpReply : UInt16 := 2

/-- `ARP_PACKET_SIZE`. -/
abbrev arpPacketSize : ℕ := 42

/-- `arp_build_request`. The hardware address is a pointer to six bytes. -/
def arpBuildRequest (packet : Buf) (senderMac : Buf) (senderIp targetIp : UInt32) : Buf :=
  let packet := store packet 0 [0xFF, 0xFF, 0xFF, 0xFF, 0xFF, 0xFF]
  let packet := store packet 6 (load senderMac 0 6)
  let packet := store16 packet 12 (htons ethPArp)
  let packet := store16 packet 14 (htons 1)
  let packet := store16 packet 16 (htons ethPIp)
  let packet := store packet 18 [6]
  let packet := store packet 19 [4]
  let packet := store16 packet 20 (htons arpOpRequest)
  let packet := store packet 22 (load senderMac 0 6)
  let packet := store packet 32 [0, 0, 0, 0, 0, 0]
  let packet := writeHtonlUnaligned packet 28 senderIp
  writeHtonlUnaligned packet 38 targetIp

/-- The bytes of a request. -/
def arpRequest (senderMac : List UInt8) (senderIp targetIp : UInt32) : List UInt8 :=
  [0xFF, 0xFF, 0xFF, 0xFF, 0xFF, 0xFF] ++ senderMac ++ [0x08, 0x06, 0, 1, 0x08, 0x00, 6, 4, 0, 1] ++ senderMac ++
    htonlBytes senderIp ++ [0, 0, 0, 0, 0, 0] ++ htonlBytes targetIp

theorem length_arpRequest {senderMac : List UInt8} (hs : senderMac.length = 6) (senderIp targetIp : UInt32) :
    (arpRequest senderMac senderIp targetIp).length = arpPacketSize := by
  simp [arpRequest, hs]

/-- What `arp_build_request` leaves in the buffer. -/
theorem arpBuildRequest_eq (packet senderMac : Buf) (senderIp targetIp : UInt32) :
    arpBuildRequest packet senderMac senderIp targetIp =
      store packet 0 (arpRequest (load senderMac 0 6) senderIp targetIp) := by
  simp only [arpBuildRequest, store16_htons, writeHtonsUnaligned, writeHtonlUnaligned]
  rw [store_comm _ (a := 32) (b := 28) (by simp)]
  rw [store_append _ (by simp), store_append _ (by simp), store_append _ (by simp), store_append _ (by simp),
    store_append _ (by simp), store_append _ (by simp), store_append _ (by simp), store_append _ (by simp),
    store_append _ (by simp), store_append _ (by simp), store_append _ (by simp)]
  simp only [arpRequest, htonsBytes, List.append_assoc]
  rfl

/-- The frame that goes out. -/
theorem load_arpBuildRequest (packet senderMac : Buf) (senderIp targetIp : UInt32) :
    load (arpBuildRequest packet senderMac senderIp targetIp) 0 arpPacketSize =
      arpRequest (load senderMac 0 6) senderIp targetIp := by
  rw [arpBuildRequest_eq, ← length_arpRequest (length_load _ _ _) senderIp targetIp, load_store]

/-- `arp_build_reply`. The hardware addresses are pointers to six bytes. -/
def arpBuildReply (packet : Buf) (senderMac : Buf) (senderIp : UInt32) (targetMac : Buf) (targetIp : UInt32) : Buf :=
  let packet := store packet 0 (load targetMac 0 6)
  let packet := store packet 6 (load senderMac 0 6)
  let packet := store16 packet 12 (htons ethPArp)
  let packet := store16 packet 14 (htons 1)
  let packet := store16 packet 16 (htons ethPIp)
  let packet := store packet 18 [6]
  let packet := store packet 19 [4]
  let packet := store16 packet 20 (htons arpOpReply)
  let packet := store packet 22 (load senderMac 0 6)
  let packet := store packet 32 (load targetMac 0 6)
  let packet := writeHtonlUnaligned packet 28 senderIp
  writeHtonlUnaligned packet 38 targetIp

/-- The bytes of a reply. -/
def arpReply (senderMac : List UInt8) (senderIp : UInt32) (targetMac : List UInt8) (targetIp : UInt32) : List UInt8 :=
  targetMac ++ senderMac ++ [0x08, 0x06, 0, 1, 0x08, 0x00, 6, 4, 0, 2] ++ senderMac ++ htonlBytes senderIp ++
    targetMac ++ htonlBytes targetIp

theorem length_arpReply {senderMac targetMac : List UInt8} (hs : senderMac.length = 6) (ht : targetMac.length = 6)
    (senderIp targetIp : UInt32) : (arpReply senderMac senderIp targetMac targetIp).length = arpPacketSize := by
  simp [arpReply, hs, ht]

/-- What `arp_build_reply` leaves in the buffer. -/
theorem arpBuildReply_eq (packet senderMac : Buf) (senderIp : UInt32) (targetMac : Buf) (targetIp : UInt32) :
    arpBuildReply packet senderMac senderIp targetMac targetIp =
      store packet 0 (arpReply (load senderMac 0 6) senderIp (load targetMac 0 6) targetIp) := by
  simp only [arpBuildReply, store16_htons, writeHtonsUnaligned, writeHtonlUnaligned]
  -- the sender's protocol address lies in front of the target's hardware address, and is written after it
  rw [store_comm _ (a := 32) (b := 28) (by simp)]
  rw [store_append _ (by simp), store_append _ (by simp), store_append _ (by simp), store_append _ (by simp),
    store_append _ (by simp), store_append _ (by simp), store_append _ (by simp), store_append _ (by simp),
    store_append _ (by simp), store_append _ (by simp), store_append _ (by simp)]
  simp only [arpReply, htonsBytes, List.append_assoc]
  rfl

/-- The frame that goes out. -/
theorem load_arpBuildReply (packet senderMac : Buf) (senderIp : UInt32) (targetMac : Buf) (targetIp : UInt32) :
    load (arpBuildReply packet senderMac senderIp targetMac targetIp) 0 arpPacketSize =
      arpReply (load senderMac 0 6) senderIp (load targetMac 0 6) targetIp := by
  rw [arpBuildReply_eq, ← length_arpReply (length_load _ _ _) (length_load _ _ _) senderIp targetIp, load_store]

/-! ### Parsing -/

/-- `arp_hdr_t`, as it is in memory. -/
structure ArpHdr where
  hwType : UInt16
  protoType : UInt16
  hwLen : UInt8
  protoLen : UInt8
  opcode : UInt16
  senderMac : List UInt8
  senderIp : UInt32
  targetMac : List UInt8
  targetIp : UInt32
  deriving DecidableEq

/-- `arp_parse`: the header that is copied out. -/
def arpParse (packet : Buf) (length : ℕ) : Option ArpHdr :=
  if length < arpPacketSize then none
  else
    some
      { hwType := load16 packet 14
        protoType := load16 packet 16
        hwLen := packet 18
        protoLen := packet 19
        opcode := load16 packet 20
        senderMac := load packet 22 6
        senderIp := load32 packet 28
        targetMac := load packet 32 6
        targetIp := load32 packet 38 }

/-- `ntohl_unaligned` at the address of a 32-bit field. -/
def ntohlField (value : UInt32) : UInt32 := ntohlUnaligned (bufOf (raw32 value)) 0

theorem ntohlField_load32 (buf : Buf) (o : ℕ) : ntohlField (load32 buf o) = ntohlUnaligned buf o := by
  rw [ntohlField, raw32_load32]
  rfl

/-- The frame is a reply with these addresses, for the parser and in its Ethernet header. -/
structure IsReply (frame senderMac : List UInt8) (senderIp : UInt32) (targetMac : List UInt8) (targetIp : UInt32) :
    Prop where
  length : frame.length = arpPacketSize
  ethDst : load (bufOf frame) 0 6 = targetMac
  ethSrc : load (bufOf frame) 6 6 = senderMac
  ethType : ntohsUnaligned (bufOf frame) 12 = ethPArp
  parsed : ∃ arp, arpParse (bufOf frame) frame.length = some arp ∧
    htons arp.opcode = arpOpReply ∧ htons arp.hwType = 1 ∧ htons arp.protoType = ethPIp ∧
    arp.hwLen = 6 ∧ arp.protoLen = 4 ∧
    arp.senderMac = senderMac ∧ ntohlField arp.senderIp = senderIp ∧
    arp.targetMac = targetMac ∧ ntohlField arp.targetIp = targetIp

theorem isReply_arpReply (senderMac targetMac : Buf) (senderIp targetIp : UInt32) :
    IsReply (arpReply (load senderMac 0 6) senderIp (load targetMac 0 6) targetIp) (load senderMac 0 6) senderIp
      (load targetMac 0 6) targetIp := by
  have hlen := length_arpReply (length_load senderMac 0 6) (length_load targetMac 0 6) senderIp targetIp
  have htype : be16 0x08 0x06 = ethPArp := by decide
  have hop : be16 0 2 = arpOpReply := by decide
  have hhw : be16 0 1 = 1 := by decide
  have hproto : be16 0x08 0x00 = ethPIp := by decide
  refine ⟨hlen, rfl, rfl, htype, ?_⟩
  rw [hlen]
  refine ⟨_, if_neg (lt_irrefl _), ?_, ?_, ?_, rfl, rfl, rfl, ?_, rfl, ?_⟩
  · rw [ntohs_load16]
    exact hop
  · rw [ntohs_load16]
    exact hhw
  · rw [ntohs_load16]
    exact hproto
  · rw [ntohlField_load32]
    exact be32_htonlBytes senderIp
  · rw [ntohlField_load32]
    exact be32_htonlBytes targetIp

/-! ### A request in a receive buffer -/

section Request

variable (buf senderMac : Buf) (senderIp targetIp : UInt32)

theorem ethType_arpRequest :
    ntohsUnaligned (store buf 0 (arpRequest (load senderMac 0 6) senderIp targetIp)) 12 = ethPArp := by
  have htype : be16 0x08 0x06 = ethPArp := by decide
  exact htype

theorem opcode_arpRequest :
    ntohsUnaligned (store buf 0 (arpRequest (load senderMac 0 6) senderIp targetIp)) 20 = arpOpRequest := by
  have hop : be16 0 1 = arpOpRequest := by decide
  exact hop

theorem senderMac_arpRequest :
    load (store buf 0 (arpRequest (load senderMac 0 6) senderIp targetIp)) 22 6 = load senderMac 0 6 := rfl

theorem senderIp_arpRequest :
    ntohlUnaligned (store buf 0 (arpRequest (load senderMac 0 6) senderIp targetIp)) 28 = senderIp :=
  be32_htonlBytes senderIp

theorem targetIp_arpRequest :
    ntohlUnaligned (store buf 0 (arpRequest (load senderMac 0 6) senderIp targetIp)) 38 = targetIp :=
  be32_htonlBytes targetIp

end Request

end Yasouos.Net
