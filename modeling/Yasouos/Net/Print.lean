import Yasouos.Net.Arp
import Yasouos.Net.Ipv4
import Mathlib.Tactic.SplitIfs

/-!
# The packet dump

`ethernet_print` and what it calls describe a frame as text: `arp_print`, `ipv4_print`,
and `tcp_print`, `udp_print` and `icmp_print` under it. Lengths are passed down, and
computed from fields of the frame on the way; `arp_print` gets none.

## The model

A program of type `Print` reads bytes of the frame and writes text. Reading a byte that
the frame does not have is a fault: there is no result then. Pointers into the frame are
offsets. A `size_t` is reduced modulo `2 ^ 64` where the source converts a negative
number to it. The tag of the resource that `ethernet_print` may put in front is a text of
its own.

## What is proved

`inside_ethernetPrint_iff` says exactly which frames are described without a fault.
-/

namespace Yasouos.Net

open Yasouos.Theory

/-- A program that reads a frame and writes text. -/
structure Print (α : Type) where
  /-- The value and the text, if there is no fault. -/
  run : Option (α × List Char)

namespace Print

instance : Monad Print where
  pure a := ⟨some (a, [])⟩
  bind p f := ⟨p.run.bind fun r => (f r.1).run.map fun r' => (r'.1, r.2 ++ r'.2)⟩

theorem run_bind {α β : Type} (p : Print α) (f : α → Print β) :
    (p >>= f).run = p.run.bind fun r => (f r.1).run.map fun r' => (r'.1, r.2 ++ r'.2) := rfl

@[ext] theorem ext_run {α : Type} {p q : Print α} (h : p.run = q.run) : p = q := by
  cases p
  cases q
  exact congrArg Print.mk h

theorem id_map_print {α : Type} (p : Print α) : id <$> p = p := by
  apply ext_run
  change (p.run.bind fun r => Option.map _ (some (id r.1, []))) = p.run
  cases p.run <;> simp

theorem pure_bind_print {α β : Type} (a : α) (f : α → Print β) : pure a >>= f = f a := by
  apply ext_run
  change (f a).run.map (fun r => (r.1, [] ++ r.2)) = (f a).run
  cases (f a).run <;> simp

theorem bind_assoc_print {α β γ : Type} (p : Print α) (f : α → Print β) (g : β → Print γ) :
    p >>= f >>= g = p >>= fun a => f a >>= g := by
  apply ext_run
  simp only [run_bind]
  cases p.run with
  | none => rfl
  | some r =>
    cases hf : (f r.1).run with
    | none => simp [hf]
    | some r' => cases hg : (g r'.1).run <;> simp [hf, hg]

instance : LawfulMonad Print := LawfulMonad.mk' _ id_map_print pure_bind_print bind_assoc_print

/-- Write text. -/
def emit (text : List Char) : Print Unit := ⟨some ((), text)⟩

/-- `puts`. -/
def puts (s : String) : Print Unit := emit s.toList

/-- Read a byte of the frame. -/
def byte (frame : List UInt8) (i : ℕ) : Print UInt8 := ⟨frame[i]?.map fun b => (b, [])⟩

/-- `ntohs_unaligned`. -/
def readNtohs (frame : List UInt8) (o : ℕ) : Print UInt16 := do
  let a ← byte frame o
  let b ← byte frame (o + 1)
  return be16 a b

/-- `ntohl_unaligned`. -/
def readNtohl (frame : List UInt8) (o : ℕ) : Print UInt32 := do
  let a ← byte frame o
  let b ← byte frame (o + 1)
  let c ← byte frame (o + 2)
  let d ← byte frame (o + 3)
  return be32 a b c d

/-! ### Numbers -/

/-- `hex_chars`. -/
def hexChar (value : ℕ) : Char := "0123456789abcdef".toList.getD value ' '

/-- `put_hex8`. -/
def putHex8 (value : UInt8) : Print Unit := emit [hexChar (value.toNat / 16), hexChar (value.toNat % 16)]

/-- `put_hex16`. -/
def putHex16 (value : UInt16) : Print Unit :=
  emit [hexChar (value.toNat / 2 ^ 12), hexChar (value.toNat / 2 ^ 8 % 16), hexChar (value.toNat / 2 ^ 4 % 16),
    hexChar (value.toNat % 16)]

/-- The character of a digit. -/
def digit (value : ℕ) : Char := Char.ofNat (48 + value)

/-- `net_print_decimal_u8`. -/
def netPrintDecimalU8 (value : UInt8) : Print Unit :=
  if value ≥ 100 then
    let rest := value % 100
    emit [digit (value / 100).toNat, digit (rest / 10).toNat, digit (rest % 10).toNat]
  else if value ≥ 10 then emit [digit (value / 10).toNat, digit (value % 10).toNat]
  else emit [digit value.toNat]

/-- The array `buf` of `net_print_decimal_u16` and `net_print_decimal_u32`, the lowest digit
first. -/
def digits (value : ℕ) : List Char :=
  if value > 0 then digit (value % 10) :: digits (value / 10) else []
termination_by value
decreasing_by omega

/-- The loops of `net_print_decimal_u16` and `net_print_decimal_u32`. -/
def netPrintDecimal (value : ℕ) : Print Unit := if value = 0 then emit ['0'] else emit (digits value).reverse

/-- `net_print_decimal_u16`. -/
def netPrintDecimalU16 (value : UInt16) : Print Unit := netPrintDecimal value.toNat

/-- `net_print_decimal_u32`. -/
def netPrintDecimalU32 (value : UInt32) : Print Unit := netPrintDecimal value.toNat

/-- `net_print_ip`. -/
def netPrintIp (ip : UInt32) : Print Unit := do
  netPrintDecimalU8 (ip >>> 24).toUInt8
  puts "."
  netPrintDecimalU8 (ip >>> 16).toUInt8
  puts "."
  netPrintDecimalU8 (ip >>> 8).toUInt8
  puts "."
  netPrintDecimalU8 ip.toUInt8

/-- `net_print_mac`. -/
def netPrintMac (frame : List UInt8) (o : ℕ) : Print Unit :=
  (List.range 6).forM fun i => do
    let b ← byte frame (o + i)
    putHex8 b
    if i < 5 then puts ":"

/-- The loop over `leftpad`. -/
def pad (leftpad : ℕ) : Print Unit := emit (List.replicate leftpad ' ')

end Print

open Print

/-! ### The functions -/

/-- `arp_print`. -/
def arpPrint (frame : List UInt8) (arp leftpad : ℕ) : Print Unit := do
  let lo ← byte frame (arp + 6)
  let hi ← byte frame (arp + 7)
  let opcode := htons (be16 hi lo)
  pad leftpad
  if opcode = arpOpRequest then
    puts "ARP Request: who-has "
    netPrintIp (← readNtohl frame (arp + 24))
    puts " tell "
    netPrintIp (← readNtohl frame (arp + 14))
    puts " ("
    netPrintMac frame (arp + 8)
    puts ")\n"
  else if opcode = arpOpReply then
    puts "ARP Reply: "
    netPrintIp (← readNtohl frame (arp + 14))
    puts " is-at "
    netPrintMac frame (arp + 8)
    puts "\n"
  else
    puts "ARP opcode="
    putHex16 opcode
    puts "\n"

/-- The flags that `tcp_print` knows, in its order. -/
def tcpFlagNames : List (UInt8 × String) :=
  [(0x02, "SYN"), (0x10, "ACK"), (0x01, "FIN"), (0x04, "RST"), (0x08, "PSH"), (0x20, "URG")]

/-- `tcp_print`. -/
def tcpPrint (frame : List UInt8) (tcp length leftpad : ℕ) : Print Unit := do
  if length < 20 then
    puts "  [TCP] Segment too small\n"
  else
    let srcPort ← readNtohs frame tcp
    let dstPort ← readNtohs frame (tcp + 2)
    let seq ← readNtohl frame (tcp + 4)
    let ack ← readNtohl frame (tcp + 8)
    let win ← readNtohs frame (tcp + 14)
    let dataOffset := ((← byte frame (tcp + 12)) >>> 4) * 4
    pad leftpad
    puts "[TCP] "
    netPrintDecimalU16 srcPort
    puts " -> "
    netPrintDecimalU16 dstPort
    puts " seq="
    netPrintDecimalU32 seq
    puts " ack="
    netPrintDecimalU32 ack
    puts " flags=["
    let flags ← byte frame (tcp + 13)
    puts (",".intercalate ((tcpFlagNames.filter fun f => flags &&& f.1 ≠ 0).map Prod.snd))
    puts "] win="
    netPrintDecimalU16 win
    puts " len="
    netPrintDecimalU16 dataOffset.toUInt16
    puts "\n"

/-- `icmp_print`. -/
def icmpPrint (frame : List UInt8) (icmp length leftpad : ℕ) : Print Unit := do
  if length < 8 then
    puts "[ICMP] Packet too small\n"
  else
    let id ← readNtohs frame (icmp + 4)
    let seq ← readNtohs frame (icmp + 6)
    pad leftpad
    puts "[ICMP] type="
    netPrintDecimalU8 (← byte frame icmp)
    puts " code="
    netPrintDecimalU8 (← byte frame (icmp + 1))
    puts " id="
    netPrintDecimalU16 id
    puts " seq="
    netPrintDecimalU16 seq
    puts " len="
    netPrintDecimalU8 (UInt8.ofNat length)
    puts "\n"

/-- One line of the hexdump in `udp_print`. -/
def hexdumpLine (frame : List UInt8) (ipPacket length leftpad offset : ℕ) : Print Unit := do
  pad (leftpad + 4)
  puts "0x"
  putHex16 (UInt16.ofNat offset)
  puts ":  "
  let lineLen := if length - offset > 16 then 16 else length - offset
  (List.range 16).forM fun i => do
    if i < lineLen then
      putHex8 (← byte frame (ipPacket + offset + i))
    else
      puts "  "
    puts " "
    if i = 7 then puts " "
  puts " "
  (List.range lineLen).forM fun i => do
    let c ← byte frame (ipPacket + offset + i)
    if c ≥ 32 ∧ c ≤ 126 then emit [Char.ofNat c.toNat] else puts "."
  puts "\n"

/-- The hexdump in `udp_print`, from an offset on. -/
def hexdump (frame : List UInt8) (ipPacket length leftpad offset : ℕ) : Print Unit := do
  if offset < length then
    hexdumpLine frame ipPacket length leftpad offset
    hexdump frame ipPacket length leftpad (offset + 16)
termination_by length - offset

/-- `udp_print`. -/
def udpPrint (frame : List UInt8) (ipPacket length leftpad : ℕ) : Print Unit := do
  if length < 28 then
    puts "  [UDP] Packet too small\n"
  else
    let ihl := ((← byte frame ipPacket) &&& 0x0F) * 4
    if length < ihl.toNat + 8 then
      puts "  [UDP] Packet too small for UDP header\n"
    else
      let srcPort ← readNtohs frame (ipPacket + ihl.toNat)
      let dstPort ← readNtohs frame (ipPacket + ihl.toNat + 2)
      let len ← readNtohs frame (ipPacket + ihl.toNat + 4)
      pad leftpad
      puts "[UDP] "
      netPrintDecimalU16 srcPort
      puts " -> "
      netPrintDecimalU16 dstPort
      puts " len="
      netPrintDecimalU16 len
      puts "\n"
      hexdump frame ipPacket length leftpad 0

/-- `ipv4_print`. -/
def ipv4Print (frame : List UInt8) (packet length leftpad : ℕ) : Print Unit := do
  if length < sizeofIpv4Hdr then
    puts "[IPv4] Packet too small\n"
  else
    let totalLen ← readNtohs frame (packet + 2)
    let srcIp ← readNtohl frame (packet + 12)
    let dstIp ← readNtohl frame (packet + 16)
    pad leftpad
    puts "[IPv4] "
    netPrintIp srcIp
    puts " -> "
    netPrintIp dstIp
    puts " proto="
    let protocol ← byte frame (packet + 9)
    netPrintDecimalU8 protocol
    puts " ttl="
    netPrintDecimalU8 (← byte frame (packet + 8))
    puts " len="
    netPrintDecimalU16 totalLen
    puts "\n"
    let ihl := ((← byte frame packet) &&& 0x0F) * 4
    if length < ihl.toNat then
      return ()
    else
      let payload := packet + ihl.toNat
      -- a negative difference becomes a large size
      let payloadLen := if length > totalLen.toNat then (2 ^ 64 + totalLen.toNat - ihl.toNat) % 2 ^ 64
        else length - ihl.toNat
      if protocol = ipprotoTcp then tcpPrint frame payload payloadLen (leftpad + 2)
      else if protocol = ipprotoUdp then udpPrint frame packet length (leftpad + 2)
      else if protocol = ipprotoIcmp then icmpPrint frame payload payloadLen (leftpad + 2)

/-- `ethernet_print`, for a frame of its full length. -/
def ethernetPrint (frame : List UInt8) (tag : Option String) (leftpad : ℕ) : Print Unit := do
  if frame.length < sizeofEthHdr then
    puts "Ethernet frame too small\n"
  else
    let ethType ← readNtohs frame 12
    if let some tag := tag then
      puts tag
      puts " "
    pad leftpad
    puts "Ethernet "
    netPrintMac frame 6
    puts " -> "
    netPrintMac frame 0
    puts " type=0x"
    putHex16 ethType
    puts " len="
    netPrintDecimalU8 (UInt8.ofNat frame.length)
    puts "\n"
    if ethType = ethPArp then arpPrint frame sizeofEthHdr (leftpad + 2)
    else if ethType = ethPIp then ipv4Print frame sizeofEthHdr (frame.length - sizeofEthHdr) (leftpad + 2)

/-! ### Reading inside the frame -/

/-- The program reads no byte that the frame does not have. -/
def Inside {α : Type} (p : Print α) : Prop := p.run.isSome

section Inside

variable {α β : Type} {frame : List UInt8}

@[simp] theorem inside_pure (a : α) : Inside (pure a : Print α) := rfl

@[simp] theorem inside_emit (text : List Char) : Inside (emit text) := rfl

/-- The bytes that a program reads do not depend on the text before. -/
theorem inside_bind {p : Print α} {a : α} {text : List Char} (hp : p.run = some (a, text)) (f : α → Print β) :
    Inside (p >>= f) ↔ Inside (f a) := by
  simp [Inside, bind, hp]

theorem not_inside_bind {p : Print α} (hp : p.run = none) (f : α → Print β) : ¬ Inside (p >>= f) := by
  simp [Inside, bind, hp]

/-- What only writes hands nothing on. -/
@[simp] theorem inside_seq (p : Print Unit) (f : Unit → Print β) : Inside (p >>= f) ↔ Inside p ∧ Inside (f ()) := by
  cases hp : p.run with
  | none => simp [not_inside_bind hp, show ¬ Inside p by simp [Inside, hp]]
  | some r => rw [inside_bind hp f, and_iff_right (show Inside p by simp [Inside, hp])]

/-- A read is inside the frame, and so must be what follows. -/
@[simp] theorem inside_byte_bind (i : ℕ) (f : UInt8 → Print β) :
    Inside (byte frame i >>= f) ↔ i < frame.length ∧ Inside (f (bufOf frame i)) := by
  by_cases h : i < frame.length
  · have hbyte : (byte frame i).run = some (bufOf frame i, []) := by simp [byte, bufOf, h]
    rw [inside_bind hbyte]
    simp [h]
  · have hbyte : (byte frame i).run = none := by simp [byte, Nat.le_of_not_lt h]
    simp [h, not_inside_bind hbyte]

@[simp] theorem inside_ite {c : Prop} [Decidable c] {p q : Print α} :
    Inside (if c then p else q) ↔ (c → Inside p) ∧ (¬ c → Inside q) := by
  by_cases h : c <;> simp [h]

@[simp] theorem inside_readNtohs_bind (o : ℕ) (f : UInt16 → Print β) :
    Inside (readNtohs frame o >>= f) ↔ o + 1 < frame.length ∧ Inside (f (ntohsUnaligned (bufOf frame) o)) := by
  simp only [readNtohs, bind_assoc, pure_bind, inside_byte_bind, ntohsUnaligned]
  constructor
  · rintro ⟨-, h1, h⟩
    exact ⟨h1, h⟩
  · rintro ⟨h1, h⟩
    exact ⟨by omega, h1, h⟩

@[simp] theorem inside_readNtohl_bind (o : ℕ) (f : UInt32 → Print β) :
    Inside (readNtohl frame o >>= f) ↔ o + 3 < frame.length ∧ Inside (f (ntohlUnaligned (bufOf frame) o)) := by
  simp only [readNtohl, bind_assoc, pure_bind, inside_byte_bind, ntohlUnaligned]
  constructor
  · rintro ⟨-, -, -, h3, h⟩
    exact ⟨h3, h⟩
  · rintro ⟨h3, h⟩
    exact ⟨by omega, by omega, by omega, h3, h⟩

@[simp] theorem inside_puts (s : String) : Inside (puts s) := rfl

@[simp] theorem inside_pad (n : ℕ) : Inside (pad n) := rfl

@[simp] theorem inside_putHex8 (value : UInt8) : Inside (putHex8 value) := rfl

@[simp] theorem inside_putHex16 (value : UInt16) : Inside (putHex16 value) := rfl

@[simp] theorem inside_netPrintDecimalU8 (value : UInt8) : Inside (netPrintDecimalU8 value) := by
  simp [netPrintDecimalU8]

theorem inside_netPrintDecimal (value : ℕ) : Inside (netPrintDecimal value) := by
  simp [netPrintDecimal]

@[simp] theorem inside_netPrintDecimalU16 (value : UInt16) : Inside (netPrintDecimalU16 value) :=
  inside_netPrintDecimal _

@[simp] theorem inside_netPrintDecimalU32 (value : UInt32) : Inside (netPrintDecimalU32 value) :=
  inside_netPrintDecimal _

@[simp] theorem inside_netPrintIp (ip : UInt32) : Inside (netPrintIp ip) := by
  simp [netPrintIp]

/-- A loop reads inside if every turn of it does. -/
@[simp] theorem inside_forM {l : List ℕ} {p : ℕ → Print Unit} : Inside (l.forM p) ↔ ∀ i ∈ l, Inside (p i) := by
  induction l with
  | nil => simp
  | cons i l ih =>
    have hcons : (i :: l).forM p = (p i >>= fun _ => l.forM p) := rfl
    rw [hcons, inside_seq, ih, List.forall_mem_cons]

@[simp] theorem inside_netPrintMac (o : ℕ) : Inside (netPrintMac frame o) ↔ o + 5 < frame.length := by
  simp only [netPrintMac, inside_forM, List.mem_range, inside_byte_bind, inside_seq, inside_putHex8, inside_ite,
    inside_puts, inside_pure, implies_true, and_true]
  constructor
  · intro h
    exact h 5 (by omega)
  · intro h i hi
    omega

end Inside

/-! ### The functions, one by one -/

variable {frame : List UInt8}

theorem htons_be16 (a b : UInt8) : htons (be16 b a) = be16 a b := by
  have h := ntohs_load16 (bufOf [a, b]) 0
  exact h

/-- `arp_print` reads the opcode, and then the addresses that it prints. -/
theorem inside_arpPrint_iff (arp leftpad : ℕ) :
    Inside (arpPrint frame arp leftpad) ↔ arp + 7 < frame.length ∧
      (ntohsUnaligned (bufOf frame) (arp + 6) = arpOpRequest → arp + 27 < frame.length) ∧
      (ntohsUnaligned (bufOf frame) (arp + 6) = arpOpReply → arp + 17 < frame.length) := by
  have hop : be16 (bufOf frame (arp + 6)) (bufOf frame (arp + 7)) = ntohsUnaligned (bufOf frame) (arp + 6) := rfl
  simp only [arpPrint, inside_byte_bind, htons_be16, hop, inside_seq, inside_pad, inside_ite, inside_puts,
    inside_readNtohl_bind, inside_netPrintIp, inside_netPrintMac, inside_putHex16, true_and, and_true, implies_true]
  by_cases h1 : ntohsUnaligned (bufOf frame) (arp + 6) = arpOpRequest
  · have hne : ¬ arpOpRequest = arpOpReply := by decide
    simp [h1, hne]
    omega
  · by_cases h2 : ntohsUnaligned (bufOf frame) (arp + 6) = arpOpReply
    · have hne : ¬ arpOpReply = arpOpRequest := by decide
      simp [h2, hne]
      omega
    · simp [h1, h2]
      omega

/-- `tcp_print` reads the header up to the window, if the length that it is given is large
enough. -/
theorem inside_tcpPrint_iff (tcp length leftpad : ℕ) :
    Inside (tcpPrint frame tcp length leftpad) ↔ (20 ≤ length → tcp + 15 < frame.length) := by
  simp only [tcpPrint, inside_ite, inside_puts, implies_true, true_and, and_true, not_lt, inside_readNtohs_bind,
    inside_readNtohl_bind, inside_byte_bind, inside_seq, inside_pad, inside_netPrintDecimalU16, inside_netPrintDecimalU32]
  refine imp_congr_right fun _ => ?_
  omega

/-- `icmp_print` reads the header, if the length that it is given is large enough. -/
theorem inside_icmpPrint_iff (icmp length leftpad : ℕ) :
    Inside (icmpPrint frame icmp length leftpad) ↔ (8 ≤ length → icmp + 7 < frame.length) := by
  simp only [icmpPrint, inside_ite, inside_puts, implies_true, true_and, and_true, not_lt, inside_readNtohs_bind,
    inside_byte_bind, inside_seq, inside_pad, inside_netPrintDecimalU16, inside_netPrintDecimalU8]
  refine imp_congr_right fun _ => ?_
  omega

/-- A line of the hexdump is inside the packet. -/
theorem inside_hexdumpLine {ipPacket length offset : ℕ} (leftpad : ℕ) (hlen : ipPacket + length ≤ frame.length)
    (hoff : offset < length) : Inside (hexdumpLine frame ipPacket length leftpad offset) := by
  simp only [hexdumpLine, inside_seq, inside_pad, inside_puts, inside_putHex16, inside_forM, List.mem_range, inside_ite,
    inside_byte_bind, inside_putHex8, inside_emit, inside_pure, true_and, and_true, implies_true]
  refine ⟨fun i _ hi => ?_, fun i hi => ?_⟩
  · split_ifs at hi <;> omega
  · split_ifs at hi <;> omega

/-- So is the hexdump. -/
theorem inside_hexdump {ipPacket length : ℕ} (leftpad offset : ℕ) (hlen : ipPacket + length ≤ frame.length) :
    Inside (hexdump frame ipPacket length leftpad offset) := by
  induction offset using hexdump.induct length with
  | case1 offset hoff ih =>
    rw [hexdump, if_pos hoff]
    exact (inside_seq _ _).mpr ⟨inside_hexdumpLine leftpad hlen hoff, ih⟩
  | case2 offset hoff =>
    rw [hexdump, if_neg hoff]
    exact inside_pure ()

/-- `udp_print` checks the length before it reads. -/
theorem inside_udpPrint {ipPacket length : ℕ} (leftpad : ℕ) (hlen : ipPacket + length ≤ frame.length) :
    Inside (udpPrint frame ipPacket length leftpad) := by
  simp only [udpPrint, inside_ite, inside_puts, implies_true, true_and, not_lt, inside_readNtohs_bind,
    inside_byte_bind, inside_seq, inside_pad, inside_netPrintDecimalU16]
  intro h28
  refine ⟨by omega, fun hihl => ⟨by omega, by omega, by omega, inside_hexdump leftpad 0 hlen⟩⟩

/-- The length of the IPv4 header that the frame states. -/
def ipHeaderLen (frame : List UInt8) (packet : ℕ) : ℕ := ((bufOf frame packet &&& 0x0F) * 4).toNat

/-- The total length that the frame states. -/
def ipTotalLen (frame : List UInt8) (packet : ℕ) : ℕ := (ntohsUnaligned (bufOf frame) (packet + 2)).toNat

theorem ipHeaderLen_le (frame : List UInt8) (packet : ℕ) : ipHeaderLen frame packet ≤ 60 := by
  have h : ∀ b : UInt8, ((b &&& 0x0F) * 4).toNat ≤ 60 := by
    intro b
    have hand : (b &&& 0x0F).toNat = b.toNat % 16 := Nat.and_two_pow_sub_one_eq_mod b.toNat 4
    rw [UInt8.toNat_mul, hand, show (4 : UInt8).toNat = 4 from rfl]
    omega
  exact h _

/-- The length that is passed on holds a header of `n` bytes only if the frame has the first
`m` of them, unless the total length is less than the IP header. -/
theorem payloadLen_iff {length ihl total n m : ℕ} (hlen : ihl ≤ length) (hmn : m ≤ n) (hn : n ≤ 20) (hihl : ihl ≤ 60)
    (htotal : total < 2 ^ 16) :
    ((n ≤ if length > total then (2 ^ 64 + total - ihl) % 2 ^ 64 else length - ihl) → ihl + m ≤ length) ↔
      (total < ihl → ihl + m ≤ length) := by
  by_cases ht : total < ihl
  · rw [if_pos (by omega), Nat.mod_eq_of_lt (by omega)]
    exact ⟨fun h _ => h (by omega), fun h _ => h ht⟩
  · refine ⟨fun _ h => absurd h ht, fun _ h => ?_⟩
    split_ifs at h <;> omega

/-- `ipv4_print` passes on too large a length if the total length is less than the header:
then the transport header must be in the frame by chance. -/
theorem inside_ipv4Print_iff {packet length : ℕ} (leftpad : ℕ) (hlen : packet + length = frame.length) :
    Inside (ipv4Print frame packet length leftpad) ↔
      (20 ≤ length → ipHeaderLen frame packet ≤ length → ipTotalLen frame packet < ipHeaderLen frame packet →
        (bufOf frame (packet + 9) = ipprotoTcp → ipHeaderLen frame packet + 16 ≤ length) ∧
        (bufOf frame (packet + 9) = ipprotoIcmp → ipHeaderLen frame packet + 8 ≤ length)) := by
  have hihl := ipHeaderLen_le frame packet
  have htotal := (ntohsUnaligned (bufOf frame) (packet + 2)).toNat_lt
  have hudp : Inside (udpPrint frame packet length (leftpad + 2)) := inside_udpPrint _ (by omega)
  simp only [ipv4Print, inside_ite, inside_puts, implies_true, true_and, not_lt, inside_readNtohs_bind,
    inside_readNtohl_bind, inside_byte_bind, inside_seq, inside_pad, inside_netPrintIp, inside_netPrintDecimalU8,
    inside_netPrintDecimalU16, inside_pure, hudp, inside_tcpPrint_iff, inside_icmpPrint_iff]
  change (20 ≤ length → _) ↔ _
  rw [← ipHeaderLen, ← ipTotalLen]
  rw [← ipTotalLen] at htotal
  refine imp_congr_right fun h20 => ?_
  rw [and_iff_right (by omega), and_iff_right (by omega), and_iff_right (by omega), and_iff_right (by omega),
    and_iff_right (by omega), and_iff_right (by omega)]
  refine imp_congr_right fun hle => ?_
  have htcp := payloadLen_iff (n := 20) (m := 16) hle (by omega) (by omega) hihl htotal
  have hicmp := payloadLen_iff (n := 8) (m := 8) hle (by omega) (by omega) hihl htotal
  have hreach : ∀ k, packet + ipHeaderLen frame packet + k < frame.length ↔ ipHeaderLen frame packet + (k + 1) ≤ length :=
    fun k => by omega
  rw [hreach, hreach, htcp, hicmp, and_true]
  by_cases h1 : bufOf frame (packet + 9) = ipprotoTcp
  · have hne : ¬ ipprotoTcp = ipprotoIcmp := by decide
    simp [h1, hne]
  · by_cases h2 : bufOf frame (packet + 9) = ipprotoIcmp
    · have hne : ¬ ipprotoIcmp = ipprotoTcp ∧ ¬ ipprotoIcmp = ipprotoUdp := by decide
      simp [h2, hne]
    · simp [h1, h2]

/-! ### Frames -/

/-- The frame is long enough for what `ethernet_print` reads of it. -/
def LongEnough (frame : List UInt8) : Prop :=
  14 ≤ frame.length →
    (ntohsUnaligned (bufOf frame) 12 = ethPArp → 22 ≤ frame.length ∧
      (ntohsUnaligned (bufOf frame) 20 = arpOpRequest → 42 ≤ frame.length) ∧
      (ntohsUnaligned (bufOf frame) 20 = arpOpReply → 32 ≤ frame.length)) ∧
    (ntohsUnaligned (bufOf frame) 12 = ethPIp → 34 ≤ frame.length → 14 + ipHeaderLen frame 14 ≤ frame.length →
      ipTotalLen frame 14 < ipHeaderLen frame 14 →
      (bufOf frame 23 = ipprotoTcp → 14 + ipHeaderLen frame 14 + 16 ≤ frame.length) ∧
      (bufOf frame 23 = ipprotoIcmp → 14 + ipHeaderLen frame 14 + 8 ≤ frame.length))

/-- The Ethernet header is checked before it is read. -/
theorem inside_ethernetPrint (frame : List UInt8) (tag : Option String) (leftpad : ℕ) :
    Inside (ethernetPrint frame tag leftpad) ↔ (14 ≤ frame.length →
      (ntohsUnaligned (bufOf frame) 12 = ethPArp → Inside (arpPrint frame 14 (leftpad + 2))) ∧
      (ntohsUnaligned (bufOf frame) 12 = ethPIp → Inside (ipv4Print frame 14 (frame.length - 14) (leftpad + 2)))) := by
  have hne : ethPIp ≠ ethPArp := by decide
  have htype : (¬ ntohsUnaligned (bufOf frame) 12 = ethPArp → ntohsUnaligned (bufOf frame) 12 = ethPIp →
      Inside (ipv4Print frame 14 (frame.length - 14) (leftpad + 2))) ↔ (ntohsUnaligned (bufOf frame) 12 = ethPIp →
      Inside (ipv4Print frame 14 (frame.length - 14) (leftpad + 2))) :=
    ⟨fun h hip => h (by rw [hip]; exact hne) hip, fun h _ hip => h hip⟩
  have hread : 14 ≤ frame.length → 12 + 1 < frame.length ∧ 6 + 5 < frame.length ∧ 0 + 5 < frame.length :=
    fun h => ⟨by omega, by omega, by omega⟩
  cases tag
  all_goals
    simp only [ethernetPrint, inside_ite, inside_puts, inside_seq, inside_pad, inside_readNtohs_bind, inside_netPrintMac,
      inside_putHex16, inside_netPrintDecimalU8, inside_pure, true_and, and_true, implies_true, sizeofEthHdr, not_lt, htype]
    refine imp_congr_right fun h => ?_
    rw [and_iff_right (hread h).1, and_iff_right (hread h).2.1, and_iff_right (hread h).2.2]

/-- `ethernet_print` and what it calls read only bytes of the frame exactly when it is long
enough: an ARP packet for the fields of its opcode, and a TCP or ICMP packet whose total
length is less than its IP header for the transport header. -/
theorem inside_ethernetPrint_iff (frame : List UInt8) (tag : Option String) (leftpad : ℕ) :
    Inside (ethernetPrint frame tag leftpad) ↔ LongEnough frame := by
  rw [inside_ethernetPrint, LongEnough]
  refine imp_congr_right fun h14 => ?_
  rw [inside_arpPrint_iff, inside_ipv4Print_iff (leftpad + 2) (show 14 + (frame.length - 14) = frame.length by omega)]
  refine and_congr (imp_congr_right fun _ => Iff.rfl) (imp_congr_right fun _ => ?_)
  have hsub : ∀ k, k ≤ frame.length - 14 ↔ 14 + k ≤ frame.length := fun k => by omega
  rw [hsub, hsub, hsub, hsub, Nat.add_assoc, Nat.add_assoc]

/-- An ARP frame with nothing behind the Ethernet header: the opcode is read all the same. -/
theorem not_inside_arpHeaderOnly :
    ¬ ∀ (frame : List UInt8) (tag : Option String) (leftpad : ℕ), Inside (ethernetPrint frame tag leftpad) := by
  intro h
  have harp := (inside_ethernetPrint _ none 0).mp
    (h [0xff, 0xff, 0xff, 0xff, 0xff, 0xff, 0x52, 0x55, 0x0a, 0x00, 0x02, 0x02, 0x08, 0x06] none 0) (by decide)
  have hread := (inside_arpPrint_iff _ _).mp (harp.1 (by decide))
  exact absurd hread.1 (by decide)

end Yasouos.Net
