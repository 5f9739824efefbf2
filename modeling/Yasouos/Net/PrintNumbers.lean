import Yasouos.Net.Hexdump

/-!
# The numbers in the packet dump

`ethernet_print` and what it calls write the numbers of a frame in decimal: lengths, ports, sequence
numbers, addresses. There are three routines for three widths, and a caller whose number is wider than
the parameter of the routine has it cut.

## The model

`ethernetPrintIn` describes the first `length` bytes of a buffer; what is behind them in the buffer can be
read too. What should be written is a list of items, texts and numbers: `describeEthernet`. A number stands
there as a number, and is rendered as its decimal numeral. `describeEthernetWith` lets the two lengths of
the dump be changed before.

## What is proved

All the numbers but two are right for every frame; the length of the frame and the length of an ICMP
message are written modulo 256 (`run_ethernetPrintIn`). So a description is right exactly if the frame is
shorter than 256 bytes and is no ICMP packet with a total length less than its header
(`run_ethernetPrintIn_iff`).
-/

namespace Yasouos.Net

open Yasouos.Theory Print

/-! ### Descriptions -/

/-- A piece of a description. -/
inductive Item where
  /-- Text as it is. -/
  | text (t : List Char)
  /-- A number. -/
  | number (n : ℕ)

namespace Item

/-- The text of a piece: of a number, its decimal numeral. -/
def render : Item → List Char
  | text t => t
  | number n => Nat.toDigits 10 n

end Item

/-- The text of a description. -/
def renderItems (l : List Item) : List Char := l.flatMap Item.render

/-- A literal text. -/
def lit (s : String) : Item := .text s.toList

/-- The blanks in front of a line. -/
def padItem (leftpad : ℕ) : Item := .text (List.replicate leftpad ' ')

/-- A number of four hexadecimal digits. -/
def hexItem (value : UInt16) : Item := .text (hexNumber value.toNat)

/-- An address in dotted notation. -/
def quadItems (ip : UInt32) : List Item :=
  [.number (ip.toNat / 2 ^ 24), lit ".", .number (ip.toNat / 2 ^ 16 % 2 ^ 8), lit ".",
    .number (ip.toNat / 2 ^ 8 % 2 ^ 8), lit ".", .number (ip.toNat % 2 ^ 8)]

/-- A hardware address. -/
def macItem (frame : List UInt8) (o : ℕ) : Item :=
  .text ((List.range 6).flatMap fun i => [hexDigit ((bufOf frame (o + i)).toNat / 16),
    hexDigit ((bufOf frame (o + i)).toNat % 16)] ++ if i < 5 then [':'] else [])

/-- The number of two bytes at an offset. -/
def number16 (frame : List UInt8) (o : ℕ) : Item := .number (ntohsUnaligned (bufOf frame) o).toNat

/-- The number of four bytes at an offset. -/
def number32 (frame : List UInt8) (o : ℕ) : Item := .number (ntohlUnaligned (bufOf frame) o).toNat

/-- The number of a byte. -/
def number8 (frame : List UInt8) (o : ℕ) : Item := .number (bufOf frame o).toNat

/-- An ARP packet. -/
def describeArp (frame : List UInt8) (arp leftpad : ℕ) : List Item :=
  let opcode := ntohsUnaligned (bufOf frame) (arp + 6)
  padItem leftpad ::
    if opcode = arpOpRequest then
      [lit "ARP Request: who-has "] ++ quadItems (ntohlUnaligned (bufOf frame) (arp + 24)) ++ [lit " tell "] ++
        quadItems (ntohlUnaligned (bufOf frame) (arp + 14)) ++ [lit " (", macItem frame (arp + 8), lit ")\n"]
    else if opcode = arpOpReply then
      [lit "ARP Reply: "] ++ quadItems (ntohlUnaligned (bufOf frame) (arp + 14)) ++
        [lit " is-at ", macItem frame (arp + 8), lit "\n"]
    else [lit "ARP opcode=", hexItem opcode, lit "\n"]

/-- A TCP segment. -/
def describeTcp (frame : List UInt8) (tcp length leftpad : ℕ) : List Item :=
  if length < 20 then [lit "  [TCP] Segment too small\n"]
  else
    let flags := (tcpFlagNames.filter fun f => bufOf frame (tcp + 13) &&& f.1 ≠ 0).map Prod.snd
    [padItem leftpad, lit "[TCP] ", number16 frame tcp, lit " -> ", number16 frame (tcp + 2), lit " seq=",
      number32 frame (tcp + 4), lit " ack=", number32 frame (tcp + 8), lit " flags=[", lit (",".intercalate flags),
      lit "] win=", number16 frame (tcp + 14), lit " len=", .number ((bufOf frame (tcp + 12)).toNat / 2 ^ 4 * 4),
      lit "\n"]

/-- A UDP datagram with the dump of its packet. -/
def describeUdp (frame : List UInt8) (ipPacket length leftpad : ℕ) : List Item :=
  if length < 28 then [lit "  [UDP] Packet too small\n"]
  else if length < ipHeaderLen frame ipPacket + 8 then [lit "  [UDP] Packet too small for UDP header\n"]
  else
    let udp := ipPacket + ipHeaderLen frame ipPacket
    [padItem leftpad, lit "[UDP] ", number16 frame udp, lit " -> ", number16 frame (udp + 2), lit " len=",
      number16 frame (udp + 4), lit "\n",
      .text (renderLines ((dumpLines (packetOf frame ipPacket length)).map (DumpLine.render (leftpad + 4))))]

/-- An ICMP message, whose length is shown as `shown` makes of it. -/
def describeIcmpWith (shown : ℕ → ℕ) (frame : List UInt8) (icmp length leftpad : ℕ) : List Item :=
  if length < 8 then [lit "[ICMP] Packet too small\n"]
  else
    [padItem leftpad, lit "[ICMP] type=", number8 frame icmp, lit " code=", number8 frame (icmp + 1), lit " id=",
      number16 frame (icmp + 4), lit " seq=", number16 frame (icmp + 6), lit " len=", .number (shown length), lit "\n"]

/-- The length of what the IP header is followed by, as `ipv4_print` computes it: a `size_t`. -/
def transportLen (frame : List UInt8) (packet length : ℕ) : ℕ :=
  if length > ipTotalLen frame packet then (2 ^ 64 + ipTotalLen frame packet - ipHeaderLen frame packet) % 2 ^ 64
  else length - ipHeaderLen frame packet

/-- What follows the line about the IP header. -/
def describeTransportWith (shown : ℕ → ℕ) (frame : List UInt8) (packet length leftpad : ℕ) : List Item :=
  let payload := packet + ipHeaderLen frame packet
  if length < ipHeaderLen frame packet then []
  else if bufOf frame (packet + 9) = ipprotoTcp then
    describeTcp frame payload (transportLen frame packet length) (leftpad + 2)
  else if bufOf frame (packet + 9) = ipprotoUdp then describeUdp frame packet length (leftpad + 2)
  else if bufOf frame (packet + 9) = ipprotoIcmp then
    describeIcmpWith shown frame payload (transportLen frame packet length) (leftpad + 2)
  else []

/-- An IPv4 packet. -/
def describeIpv4With (shown : ℕ → ℕ) (frame : List UInt8) (packet length leftpad : ℕ) : List Item :=
  if length < 20 then [lit "[IPv4] Packet too small\n"]
  else
    [padItem leftpad, lit "[IPv4] "] ++ quadItems (ntohlUnaligned (bufOf frame) (packet + 12)) ++ [lit " -> "] ++
      quadItems (ntohlUnaligned (bufOf frame) (packet + 16)) ++
      [lit " proto=", number8 frame (packet + 9), lit " ttl=", number8 frame (packet + 8), lit " len=",
        number16 frame (packet + 2), lit "\n"] ++
      describeTransportWith shown frame packet length leftpad

/-- What stands in front of the length of a frame. -/
def describeAddresses (frame : List UInt8) (tag : Option String) (leftpad : ℕ) : List Item :=
  (match tag with
    | some tag => [lit tag, lit " "]
    | none => []) ++
    [padItem leftpad, lit "Ethernet ", macItem frame 6, lit " -> ", macItem frame 0, lit " type=0x",
      hexItem (ntohsUnaligned (bufOf frame) 12), lit " len="]

/-- What follows the line about the Ethernet header. -/
def describeNetworkWith (shown : ℕ → ℕ) (frame : List UInt8) (length leftpad : ℕ) : List Item :=
  if ntohsUnaligned (bufOf frame) 12 = ethPArp then describeArp frame 14 (leftpad + 2)
  else if ntohsUnaligned (bufOf frame) 12 = ethPIp then describeIpv4With shown frame 14 (length - 14) (leftpad + 2)
  else []

/-- A frame, with its length and that of an ICMP message in it shown as `shown` makes of them. -/
def describeEthernetWith (shown : ℕ → ℕ) (frame : List UInt8) (length : ℕ) (tag : Option String) (leftpad : ℕ) :
    List Item :=
  if length < 14 then [lit "Ethernet frame too small\n"]
  else
    describeAddresses frame tag leftpad ++ .number (shown length) :: lit "\n" ::
      describeNetworkWith shown frame length leftpad

/-- The description of a frame: every number is there as it is. -/
def describeEthernet (frame : List UInt8) (length : ℕ) (tag : Option String) (leftpad : ℕ) : List Item :=
  describeEthernetWith id frame length tag leftpad

/-- `ethernet_print`, for a frame in a longer buffer. -/
def ethernetPrintIn (buffer : List UInt8) (length : ℕ) (tag : Option String) (leftpad : ℕ) : Print Unit := do
  if length < sizeofEthHdr then
    puts "Ethernet frame too small\n"
  else
    let ethType ← readNtohs buffer 12
    if let some tag := tag then
      puts tag
      puts " "
    pad leftpad
    puts "Ethernet "
    netPrintMac buffer 6
    puts " -> "
    netPrintMac buffer 0
    puts " type=0x"
    putHex16 ethType
    puts " len="
    netPrintDecimalU8 (UInt8.ofNat length)
    puts "\n"
    if ethType = ethPArp then arpPrint buffer sizeofEthHdr (leftpad + 2)
    else if ethType = ethPIp then ipv4Print buffer sizeofEthHdr (length - sizeofEthHdr) (leftpad + 2)

/-- A frame that fills its buffer. -/
theorem ethernetPrintIn_length (frame : List UInt8) (tag : Option String) (leftpad : ℕ) :
    ethernetPrintIn frame frame.length tag leftpad = ethernetPrint frame tag leftpad := rfl

/-! ### Writing a description -/

/-- The program writes the description. -/
def Describes (p : Print Unit) (l : List Item) : Prop := p.run = some ((), renderItems l)

namespace Describes

variable {p : Print Unit} {f : Unit → Print Unit} {l l' : List Item}

/-- One description after another. -/
theorem seq (hp : Describes p l) (hf : Describes (f ()) l') : Describes (p >>= f) (l ++ l') := by
  rw [Describes, run_seq hp, hf, renderItems, renderItems, renderItems, List.flatMap_append]
  rfl

theorem congr {q : Print Unit} (h : p.run = q.run) (hq : Describes q l) : Describes p l := h.trans hq

theorem emit (t : List Char) : Describes (Print.emit t) [.text t] := by
  rw [Describes, renderItems, List.flatMap_singleton]
  rfl

theorem puts (s : String) : Describes (Print.puts s) [lit s] := emit _

theorem pad (leftpad : ℕ) : Describes (Print.pad leftpad) [padItem leftpad] := emit _

theorem putHex16 (value : UInt16) : Describes (Print.putHex16 value) [hexItem value] := emit _

theorem pure_unit : Describes (pure ()) [] := rfl

theorem netPrintDecimalU8 (value : UInt8) : Describes (Print.netPrintDecimalU8 value) [.number value.toNat] := by
  have hall : ∀ n < 256, (Print.netPrintDecimalU8 (UInt8.ofNat n)).run = some ((), Nat.toDigits 10 n ++ []) := by
    decide +kernel
  have h := hall value.toNat value.toNat_lt
  rwa [UInt8.ofNat_toNat] at h

theorem netPrintDecimal (value : ℕ) : Describes (Print.netPrintDecimal value) [.number value] := by
  rw [netPrintDecimal_eq, decimal_eq_toDigits]
  exact emit _

theorem netPrintDecimalU16 (value : UInt16) : Describes (Print.netPrintDecimalU16 value) [.number value.toNat] :=
  netPrintDecimal _

theorem netPrintDecimalU32 (value : UInt32) : Describes (Print.netPrintDecimalU32 value) [.number value.toNat] :=
  netPrintDecimal _

theorem netPrintIp (ip : UInt32) : Describes (Print.netPrintIp ip) (quadItems ip) := by
  have hip := ip.toNat_lt
  have h3 : (ip >>> 24).toUInt8.toNat = ip.toNat / 2 ^ 24 := by
    simp [Nat.shiftRight_eq_div_pow]
    omega
  have h2 : (ip >>> 16).toUInt8.toNat = ip.toNat / 2 ^ 16 % 2 ^ 8 := by simp [Nat.shiftRight_eq_div_pow]
  have h1 : (ip >>> 8).toUInt8.toNat = ip.toNat / 2 ^ 8 % 2 ^ 8 := by simp [Nat.shiftRight_eq_div_pow]
  have h0 : ip.toUInt8.toNat = ip.toNat % 2 ^ 8 := by simp
  have hdot := puts "."
  rw [quadItems, ← h3, ← h2, ← h1, ← h0]
  exact (netPrintDecimalU8 _).seq (hdot.seq ((netPrintDecimalU8 _).seq (hdot.seq ((netPrintDecimalU8 _).seq (hdot.seq
    (netPrintDecimalU8 _))))))

theorem netPrintMac {frame : List UInt8} {o : ℕ} (h : o + 5 < frame.length) :
    Describes (Print.netPrintMac frame o) [macItem frame o] := by
  rw [Describes, renderItems, List.flatMap_singleton]
  apply run_forM
  intro i hi
  have hi : i < 6 := List.mem_range.1 hi
  rw [run_byte_bind (by omega)]
  split_ifs <;> rfl

end Describes

/-! ### The functions -/

section Functions

variable {frame : List UInt8}

theorem describes_arpPrint {arp : ℕ} (leftpad : ℕ) (hlen : arp + 28 ≤ frame.length) :
    Describes (arpPrint frame arp leftpad) (describeArp frame arp leftpad) := by
  have hopcode : htons (be16 (bufOf frame (arp + 7)) (bufOf frame (arp + 6))) = ntohsUnaligned (bufOf frame) (arp + 6) :=
    ntohs_load16 _ _
  have hmac : Describes (netPrintMac frame (arp + 8)) [macItem frame (arp + 8)] := Describes.netPrintMac (by omega)
  rw [arpPrint, describeArp]
  refine .congr (run_byte_bind (by omega) _) (.congr (run_byte_bind (by omega) _) ?_)
  simp only [hopcode]
  by_cases hrequest : ntohsUnaligned (bufOf frame) (arp + 6) = arpOpRequest
  · rw [if_pos hrequest, if_pos hrequest]
    refine (Describes.pad leftpad).seq ((Describes.puts _).seq (.congr (run_readNtohl_bind (by omega) _) ?_))
    refine (Describes.netPrintIp _).seq ((Describes.puts _).seq (.congr (run_readNtohl_bind (by omega) _) ?_))
    exact (Describes.netPrintIp _).seq ((Describes.puts _).seq (hmac.seq (Describes.puts _)))
  · rw [if_neg hrequest, if_neg hrequest]
    by_cases hreply : ntohsUnaligned (bufOf frame) (arp + 6) = arpOpReply
    · rw [if_pos hreply, if_pos hreply]
      refine (Describes.pad leftpad).seq ((Describes.puts _).seq (.congr (run_readNtohl_bind (by omega) _) ?_))
      exact (Describes.netPrintIp _).seq ((Describes.puts _).seq (hmac.seq (Describes.puts _)))
    · rw [if_neg hreply, if_neg hreply]
      exact (Describes.pad leftpad).seq ((Describes.puts _).seq ((Describes.putHex16 _).seq (Describes.puts _)))

theorem describes_tcpPrint {tcp length : ℕ} (leftpad : ℕ) (hlen : 20 ≤ length → tcp + 20 ≤ frame.length) :
    Describes (tcpPrint frame tcp length leftpad) (describeTcp frame tcp length leftpad) := by
  rw [tcpPrint, describeTcp]
  split_ifs with hshort
  · exact Describes.puts _
  · have hlong := hlen (Nat.not_lt.1 hshort)
    have hoffset : (((bufOf frame (tcp + 12) >>> 4) * 4).toUInt16).toNat =
        (bufOf frame (tcp + 12)).toNat / 2 ^ 4 * 4 := by
      have := (bufOf frame (tcp + 12)).toNat_lt
      simp [Nat.shiftRight_eq_div_pow]
      omega
    refine .congr (run_readNtohs_bind (by omega) _) (.congr (run_readNtohs_bind (by omega) _) ?_)
    refine .congr (run_readNtohl_bind (by omega) _) (.congr (run_readNtohl_bind (by omega) _) ?_)
    refine .congr (run_readNtohs_bind (by omega) _) (.congr (run_byte_bind (by omega) _) ?_)
    refine (Describes.pad _).seq ((Describes.puts _).seq ((Describes.netPrintDecimalU16 _).seq ?_))
    refine (Describes.puts _).seq ((Describes.netPrintDecimalU16 _).seq ((Describes.puts _).seq ?_))
    refine (Describes.netPrintDecimalU32 _).seq ((Describes.puts _).seq ((Describes.netPrintDecimalU32 _).seq ?_))
    refine (Describes.puts _).seq (.congr (run_byte_bind (by omega) _) ((Describes.puts _).seq ?_))
    refine (Describes.puts _).seq ((Describes.netPrintDecimalU16 _).seq ((Describes.puts _).seq ?_))
    rw [← hoffset]
    exact (Describes.netPrintDecimalU16 _).seq (Describes.puts _)

theorem describes_udpPrint {ipPacket length : ℕ} (leftpad : ℕ) (hlen : ipPacket + length ≤ frame.length)
    (h16 : length < 2 ^ 16) :
    Describes (udpPrint frame ipPacket length leftpad) (describeUdp frame ipPacket length leftpad) := by
  have hihl : ((bufOf frame ipPacket &&& 0x0F) * 4).toNat = ipHeaderLen frame ipPacket := rfl
  rw [udpPrint, describeUdp]
  split_ifs with hshort hheader
  · exact Describes.puts _
  · refine .congr (run_byte_bind (by omega) _) ?_
    simp only [hihl]
    rw [if_pos hheader]
    exact Describes.puts _
  · refine .congr (run_byte_bind (by omega) _) ?_
    simp only [hihl]
    rw [if_neg hheader]
    refine .congr (run_readNtohs_bind (by omega) _) (.congr (run_readNtohs_bind (by omega) _) ?_)
    refine .congr (run_readNtohs_bind (by omega) _) ?_
    refine (Describes.pad _).seq ((Describes.puts _).seq ((Describes.netPrintDecimalU16 _).seq ?_))
    refine (Describes.puts _).seq ((Describes.netPrintDecimalU16 _).seq ((Describes.puts _).seq ?_))
    refine (Describes.netPrintDecimalU16 _).seq ((Describes.puts _).seq ?_)
    rw [Describes, renderItems, List.flatMap_singleton]
    exact run_hexdump hlen leftpad h16

/-- The length is passed as a byte. -/
theorem describes_icmpPrint {icmp length : ℕ} (leftpad : ℕ) (hlen : 8 ≤ length → icmp + 8 ≤ frame.length) :
    Describes (icmpPrint frame icmp length leftpad) (describeIcmpWith (· % 256) frame icmp length leftpad) := by
  rw [icmpPrint, describeIcmpWith]
  split_ifs with hshort
  · exact Describes.puts _
  · have hlong := hlen (Nat.not_lt.1 hshort)
    have hnarrow : (UInt8.ofNat length).toNat = length % 256 := UInt8.toNat_ofNat'
    refine .congr (run_readNtohs_bind (by omega) _) (.congr (run_readNtohs_bind (by omega) _) ?_)
    refine (Describes.pad _).seq ((Describes.puts _).seq (.congr (run_byte_bind (by omega) _) ?_))
    refine (Describes.netPrintDecimalU8 _).seq ((Describes.puts _).seq (.congr (run_byte_bind (by omega) _) ?_))
    refine (Describes.netPrintDecimalU8 _).seq ((Describes.puts _).seq ((Describes.netPrintDecimalU16 _).seq ?_))
    refine (Describes.puts _).seq ((Describes.netPrintDecimalU16 _).seq ((Describes.puts _).seq ?_))
    rw [← hnarrow]
    exact (Describes.netPrintDecimalU8 _).seq (Describes.puts _)

theorem describes_ipv4Print {packet length : ℕ} (leftpad : ℕ) (hlen : packet + length ≤ frame.length)
    (hbuf : packet + 80 ≤ frame.length) (h16 : length < 2 ^ 16) :
    Describes (ipv4Print frame packet length leftpad) (describeIpv4With (· % 256) frame packet length leftpad) := by
  have hle := ipHeaderLen_le frame packet
  have hihl : ((bufOf frame packet &&& 0x0F) * 4).toNat = ipHeaderLen frame packet := rfl
  have htotal : (ntohsUnaligned (bufOf frame) (packet + 2)).toNat = ipTotalLen frame packet := rfl
  have hpayload : (if length > ipTotalLen frame packet then
      (2 ^ 64 + ipTotalLen frame packet - ipHeaderLen frame packet) % 2 ^ 64
      else length - ipHeaderLen frame packet) = transportLen frame packet length := rfl
  have hheader : ∀ k ≤ 20, packet + ipHeaderLen frame packet + k ≤ frame.length := fun k hk => by omega
  rw [ipv4Print, describeIpv4With]
  by_cases hshort : length < 20
  · rw [if_pos hshort, if_pos hshort]
    exact Describes.puts _
  · rw [if_neg hshort, if_neg hshort]
    refine .congr (run_readNtohs_bind (by omega) _) (.congr (run_readNtohl_bind (by omega) _) ?_)
    refine .congr (run_readNtohl_bind (by omega) _) ?_
    refine (Describes.pad _).seq ((Describes.puts _).seq ((Describes.netPrintIp _).seq ((Describes.puts _).seq ?_)))
    refine (Describes.netPrintIp _).seq ((Describes.puts _).seq (.congr (run_byte_bind (by omega) _) ?_))
    refine (Describes.netPrintDecimalU8 _).seq ((Describes.puts _).seq (.congr (run_byte_bind (by omega) _) ?_))
    refine (Describes.netPrintDecimalU8 _).seq ((Describes.puts _).seq ((Describes.netPrintDecimalU16 _).seq ?_))
    refine (Describes.puts _).seq (.congr (run_byte_bind (by omega) _) ?_)
    simp only [hihl, htotal, hpayload]
    change Describes _ (describeTransportWith (· % 256) frame packet length leftpad)
    rw [describeTransportWith]
    split_ifs
    · exact Describes.pure_unit
    · exact describes_tcpPrint _ (fun _ => hheader 20 (by omega))
    · exact describes_udpPrint _ hlen h16
    · exact describes_icmpPrint _ (fun _ => hheader 8 (by omega))
    · exact Describes.pure_unit

/-- What `ethernet_print` writes: the two lengths are cut to a byte. -/
theorem describes_ethernetPrintIn {n : ℕ} (hn : n ≤ frame.length) (hbuf : 94 ≤ frame.length) (h16 : n < 2 ^ 16)
    (tag : Option String) (leftpad : ℕ) :
    Describes (ethernetPrintIn frame n tag leftpad) (describeEthernetWith (· % 256) frame n tag leftpad) := by
  have hnarrow : (UInt8.ofNat n).toNat = n % 256 := UInt8.toNat_ofNat'
  have hsrc : Describes (netPrintMac frame 6) [macItem frame 6] := Describes.netPrintMac (by omega)
  have hdst : Describes (netPrintMac frame 0) [macItem frame 0] := Describes.netPrintMac (by omega)
  have hnetwork : Describes (if ntohsUnaligned (bufOf frame) 12 = ethPArp then arpPrint frame sizeofEthHdr (leftpad + 2)
      else if ntohsUnaligned (bufOf frame) 12 = ethPIp then ipv4Print frame sizeofEthHdr (n - sizeofEthHdr) (leftpad + 2)
      else pure ()) (describeNetworkWith (· % 256) frame n leftpad) := by
    rw [describeNetworkWith]
    split_ifs
    · exact describes_arpPrint _ (show 14 + 28 ≤ frame.length by omega)
    · exact describes_ipv4Print _ (show 14 + (n - 14) ≤ frame.length by omega) (show 14 + 80 ≤ frame.length by omega)
        (show n - 14 < 2 ^ 16 by omega)
    · exact Describes.pure_unit
  -- the two programs differ in the tag only
  have hline : Describes (do
      pad leftpad
      puts "Ethernet "
      netPrintMac frame 6
      puts " -> "
      netPrintMac frame 0
      puts " type=0x"
      putHex16 (ntohsUnaligned (bufOf frame) 12)
      puts " len="
      netPrintDecimalU8 (UInt8.ofNat n)
      puts "\n"
      if ntohsUnaligned (bufOf frame) 12 = ethPArp then arpPrint frame sizeofEthHdr (leftpad + 2)
      else if ntohsUnaligned (bufOf frame) 12 = ethPIp then ipv4Print frame sizeofEthHdr (n - sizeofEthHdr) (leftpad + 2))
      (describeAddresses frame none leftpad ++ .number (n % 256) :: lit "\n" ::
        describeNetworkWith (· % 256) frame n leftpad) := by
    refine (Describes.pad _).seq ((Describes.puts _).seq (hsrc.seq ((Describes.puts _).seq (hdst.seq ?_))))
    refine (Describes.puts _).seq ((Describes.putHex16 _).seq ((Describes.puts _).seq ?_))
    rw [← hnarrow]
    exact (Describes.netPrintDecimalU8 _).seq ((Describes.puts _).seq hnetwork)
  rw [ethernetPrintIn, describeEthernetWith]
  by_cases hshort : n < 14
  · rw [if_pos hshort, if_pos hshort]
    exact Describes.puts _
  · rw [if_neg hshort, if_neg hshort]
    refine .congr (run_readNtohs_bind (by omega) _) ?_
    cases tag with
    | none => exact hline
    | some tag => exact (Describes.puts tag).seq ((Describes.puts " ").seq hline)

end Functions

/-! ### When the numbers are right -/

theorem renderItems_append (l l' : List Item) : renderItems (l ++ l') = renderItems l ++ renderItems l' :=
  List.flatMap_append

/-- A number can be read off the text: its digits end where the line does. -/
theorem renderItems_number_inj (l r r' : List Item) (m n : ℕ) :
    renderItems (l ++ .number m :: lit "\n" :: r) = renderItems (l ++ .number n :: lit "\n" :: r') ↔
      m = n ∧ renderItems r = renderItems r' := by
  have hrender : ∀ k (x : List Item),
      renderItems (.number k :: lit "\n" :: x) = Nat.toDigits 10 k ++ '\n' :: renderItems x := fun _ _ => rfl
  have hdigits : ∀ k (t : List Char), (Nat.toDigits 10 k ++ '\n' :: t).takeWhile Char.isDigit = Nat.toDigits 10 k := by
    intro k t
    have hall : ∀ c ∈ Nat.toDigits 10 k, c.isDigit = true := by
      intro c hc
      exact Nat.isDigit_of_mem_toDigits (by omega) (by omega) hc
    have hnewline : ¬ '\n'.isDigit = true := by decide
    rw [List.takeWhile_append_of_pos hall, List.takeWhile_cons_of_neg hnewline, List.append_nil]
  rw [renderItems_append, renderItems_append, List.append_cancel_left_eq, hrender, hrender]
  constructor
  · intro h
    have hnumeral : Nat.toDigits 10 m = Nat.toDigits 10 n := by
      rw [← hdigits m (renderItems r), h, hdigits]
    have hmn : m = n := by
      rw [← Nat.ofDigitChars_ten_toDigits (n := m), hnumeral, Nat.ofDigitChars_ten_toDigits]
    rw [hnumeral, List.append_cancel_left_eq, List.cons.injEq] at h
    exact ⟨hmn, h.2⟩
  · rintro ⟨rfl, h⟩
    rw [h]

section Compare

variable {frame : List UInt8}

theorem renderItems_icmp_iff (shown : ℕ → ℕ) (icmp length leftpad : ℕ) :
    renderItems (describeIcmpWith shown frame icmp length leftpad) =
      renderItems (describeIcmpWith id frame icmp length leftpad) ↔ (8 ≤ length → shown length = length) := by
  rw [describeIcmpWith, describeIcmpWith]
  split_ifs with hshort
  · exact ⟨fun _ h => absurd h (Nat.not_le.2 hshort), fun _ => rfl⟩
  · rw [imp_iff_right (Nat.not_lt.1 hshort)]
    have hinj := renderItems_number_inj [padItem leftpad, lit "[ICMP] type=", number8 frame icmp, lit " code=",
      number8 frame (icmp + 1), lit " id=", number16 frame (icmp + 4), lit " seq=", number16 frame (icmp + 6),
      lit " len="] [] [] (shown length) length
    rwa [and_iff_left rfl] at hinj

theorem renderItems_ipv4_iff (shown : ℕ → ℕ) (packet length leftpad : ℕ) :
    renderItems (describeIpv4With shown frame packet length leftpad) =
      renderItems (describeIpv4With id frame packet length leftpad) ↔
      (20 ≤ length → ipHeaderLen frame packet ≤ length → bufOf frame (packet + 9) = ipprotoIcmp →
        8 ≤ transportLen frame packet length →
        shown (transportLen frame packet length) = transportLen frame packet length) := by
  rw [describeIpv4With, describeIpv4With]
  by_cases hshort : length < 20
  · rw [if_pos hshort, if_pos hshort]
    exact ⟨fun _ h => absurd h (Nat.not_le.2 hshort), fun _ => rfl⟩
  · rw [if_neg hshort, if_neg hshort, imp_iff_right (Nat.not_lt.1 hshort),
      renderItems_append _ (describeTransportWith shown frame packet length leftpad),
      renderItems_append _ (describeTransportWith id frame packet length leftpad), List.append_cancel_left_eq,
      describeTransportWith, describeTransportWith]
    by_cases hihl : length < ipHeaderLen frame packet
    · simp [hihl]
    · have hne : ipprotoIcmp ≠ ipprotoTcp ∧ ipprotoIcmp ≠ ipprotoUdp := by decide
      by_cases hicmp : bufOf frame (packet + 9) = ipprotoIcmp
      · simp only [hihl, hicmp, hne.1, hne.2, if_false, if_true, renderItems_icmp_iff, Nat.not_lt.1 hihl, true_imp_iff]
      · simp [hihl, hicmp]

/-- An ICMP packet whose total length is less than its header: a negative length becomes a large one. -/
structure ShortIcmp (frame : List UInt8) (n : ℕ) : Prop where
  length : 34 ≤ n
  ethType : ntohsUnaligned (bufOf frame) 12 = ethPIp
  protocol : bufOf frame 23 = ipprotoIcmp
  ihl : 14 + ipHeaderLen frame 14 ≤ n
  total : ipTotalLen frame 14 < ipHeaderLen frame 14

/-- In a frame of less than 256 bytes, the length of a message needs more than a byte only if it is negative. -/
theorem transportLen_narrow_iff {n : ℕ} (hn : n < 256) (hihl : ipHeaderLen frame 14 ≤ n - 14) :
    (8 ≤ transportLen frame 14 (n - 14) → transportLen frame 14 (n - 14) % 256 = transportLen frame 14 (n - 14)) ↔
      ¬ ipTotalLen frame 14 < ipHeaderLen frame 14 := by
  have hle := ipHeaderLen_le frame 14
  have htotal : ipTotalLen frame 14 < 2 ^ 16 := (ntohsUnaligned (bufOf frame) (14 + 2)).toNat_lt
  rw [transportLen]
  split_ifs with h <;> omega

/-- With its lengths cut to a byte, a description is the same exactly if they fit. -/
theorem renderItems_ethernet_iff (n : ℕ) (tag : Option String) (leftpad : ℕ) :
    renderItems (describeEthernetWith (· % 256) frame n tag leftpad) = renderItems (describeEthernet frame n tag leftpad) ↔
      n < 14 ∨ n < 256 ∧ ¬ ShortIcmp frame n := by
  rw [describeEthernet, describeEthernetWith, describeEthernetWith]
  by_cases hshort : n < 14
  · rw [if_pos hshort, if_pos hshort]
    exact iff_of_true rfl (Or.inl hshort)
  · have hfits : n % 256 = n ↔ n < 256 := by omega
    rw [if_neg hshort, if_neg hshort, or_iff_right hshort, renderItems_number_inj]
    change n % 256 = n ∧ _ ↔ _
    rw [hfits]
    refine and_congr_right fun hlt => ?_
    have hne : ethPIp ≠ ethPArp := by decide
    rw [describeNetworkWith, describeNetworkWith]
    by_cases hip : ntohsUnaligned (bufOf frame) 12 = ethPIp
    · rw [hip, if_neg hne, if_neg hne, if_pos rfl, if_pos rfl, renderItems_ipv4_iff]
      constructor
      · intro h hicmp
        have hihl := hicmp.ihl
        have hlength := hicmp.length
        have hle : ipHeaderLen frame 14 ≤ n - 14 := by omega
        exact (transportLen_narrow_iff hlt hle).1 (h (by omega) hle hicmp.protocol) hicmp.total
      · intro h h20 hle hproto
        refine (transportLen_narrow_iff hlt hle).2 fun htotal => h ⟨by omega, hip, hproto, by omega, htotal⟩
    · refine iff_of_true ?_ fun hicmp => hip hicmp.ethType
      rw [if_neg hip, if_neg hip]

end Compare

/-- What is written for a frame in a buffer of 2048 bytes has every number as it is exactly if the frame is shorter
than 256 bytes, and is no ICMP packet with a total length less than its header. -/
theorem run_ethernetPrintIn_iff {buffer : List UInt8} (hbuf : buffer.length = 2048) {n : ℕ} (hn : n ≤ 2048)
    (tag : Option String) (leftpad : ℕ) :
    (ethernetPrintIn buffer n tag leftpad).run = some ((), renderItems (describeEthernet buffer n tag leftpad)) ↔
      n < 14 ∨ n < 256 ∧ ¬ ShortIcmp buffer n := by
  have hrun := describes_ethernetPrintIn (show n ≤ buffer.length by omega) (by omega) (by omega) tag leftpad
  rw [hrun, Option.some.injEq, Prod.mk.injEq, and_iff_right rfl, renderItems_ethernet_iff]

/-- A frame of sixty bytes. -/
theorem run_ethernetPrintIn_sixty :
    (ethernetPrintIn (List.replicate 2048 0) 60 none 0).run =
      some ((), renderItems (describeEthernet (List.replicate 2048 0) 60 none 0)) := by
  have hzero : bufOf (List.replicate 2048 0) 23 ≠ ipprotoIcmp := by
    rw [bufOf, List.getD_replicate _ (show 23 < 2048 by omega)]
    decide
  exact (run_ethernetPrintIn_iff List.length_replicate (by omega) none 0).2 (Or.inr ⟨by omega, fun h => hzero h.protocol⟩)

/-- The length of a frame of 300 bytes is written as 44. -/
theorem not_run_ethernetPrintIn_300 :
    ¬ ∀ (buffer : List UInt8) (n : ℕ) (tag : Option String) (leftpad : ℕ), buffer.length = 2048 → n ≤ 2048 →
      (ethernetPrintIn buffer n tag leftpad).run = some ((), renderItems (describeEthernet buffer n tag leftpad)) := by
  intro h
  have hlength : (List.replicate 2048 (0 : UInt8)).length = 2048 := List.length_replicate
  have hrun := describes_ethernetPrintIn (show 300 ≤ (List.replicate 2048 (0 : UInt8)).length by omega) (by omega)
    (by omega) none 0
  have heq := (Prod.mk.inj (Option.some.inj (hrun.symm.trans (h _ 300 none 0 hlength (by omega))))).2
  have hfits := (renderItems_ethernet_iff 300 none 0).1 heq
  omega

end Yasouos.Net
