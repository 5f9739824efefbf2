import Yasouos.Apps.HttpStream
import Yasouos.Apps.PacketPrint
import Yasouos.Net.PrintText

/-!
# The ports that are printed and the ports that are answered

`ethernet_print` describes a frame, ports and all, and `packet_print.c` and `http_hello.c` read
the ports of the same frame to decide whether to answer. The printers find the transport header
behind the IP header that the frame states; the applications look for it twenty bytes behind the
Ethernet header.

## The model

`printedPorts` reads the ports back from the text of `ethernet_print`: they stand in its third
line, behind `[UDP] ` or `[TCP] `. `PortsAgree` compares them with the variables of the
applications, and with the ports of every answer.

## What is proved

The text has the ports of the stated header (`run_ethernetPrint_ports`), and the answers swap
those at the fixed place (`fixedPorts_packetPrint`, `fixedPorts_httpHello`), so that both agree
exactly if there are no options, if the four bytes at both places are the same, or if
a short total length keeps `tcp_print` from printing ports at all: `portsAgree_iff`.
-/

namespace Yasouos.Apps.PrintedPorts

open Yasouos.Theory Yasouos.Net Yasouos.Net.Print
open Yasouos.Apps.HttpHello (Frame readSegment)

/-! ### Reading the text -/

/-- The number at the front of a text, and what follows it. -/
def readNumber (text : List Char) : Option (ℕ × List Char) :=
  let number := text.takeWhile Char.isDigit
  if number = [] then none
  else some (number.foldl (fun value c => 10 * value + (c.toNat - 48)) 0, text.dropWhile Char.isDigit)

/-- What follows a literal. -/
def expect (literal : String) (text : List Char) : Option (List Char) :=
  if literal.toList.isPrefixOf text then some (text.drop literal.toList.length) else none

/-- What follows the first line. -/
def dropLine (text : List Char) : List Char := (text.dropWhile (· != '\n')).drop 1

/-- The two numbers of a line about ports. -/
def readPorts (line : List Char) : Option (ℕ × ℕ) := do
  let line := line.dropWhile (· == ' ')
  let ports ← (expect "[UDP] " line).or (expect "[TCP] " line)
  let (src, rest) ← readNumber ports
  let rest ← expect " -> " rest
  let (dst, _) ← readNumber rest
  return (src, dst)

/-- What stands in front of the first line. -/
def tagText : Option String → List Char
  | none => []
  | some tag => tag.toList ++ [' ']

/-- The ports in a text of `ethernet_print`. -/
def printedPorts (tag : Option String) (text : List Char) : Option (ℕ × ℕ) :=
  readPorts (dropLine (dropLine (text.drop (tagText tag).length)))

/-! ### Numbers -/

/-- A number that is followed by a space is read back. -/
theorem readNumber_decimal (value : ℕ) (rest : List Char) :
    readNumber (decimal value ++ ' ' :: rest) = some (value, ' ' :: rest) := by
  have hall : ∀ c ∈ decimal value, c.isDigit = true := fun _ => isDigit_of_mem_decimal
  have hspace : ' '.isDigit = false := by decide
  rw [readNumber, List.takeWhile_append_of_pos hall, List.dropWhile_append_of_pos hall,
    List.takeWhile_cons_of_neg (by simp [hspace]), List.dropWhile_cons_of_neg (by simp [hspace]), List.append_nil]
  simp only [decimal_ne_nil, if_false, foldl_decimal]

theorem expect_append (literal : String) (rest : List Char) : expect literal (literal.toList ++ rest) = some rest := by
  rw [expect, if_pos (List.isPrefixOf_iff_prefix.2 (List.prefix_append _ _)), List.drop_left]

/-! ### The text about a frame -/

/-- Where the rest is known, the first line is dropped from the text. -/
theorem dropLine_of_firstLine {p q : Print Unit} {text : List Char} (h : FirstLine p q) (hq : q.run = some ((), text)) :
    ∃ full, p.run = some ((), full) ∧ dropLine full = text := by
  obtain ⟨line, hline, hrun⟩ := h
  refine ⟨line ++ '\n' :: text, by rw [hrun, hq]; rfl, ?_⟩
  have hall : ∀ c ∈ line, (c != '\n') = true := by
    intro c hc
    rw [bne_iff_ne]
    exact fun e => hline (e ▸ hc)
  rw [dropLine, List.dropWhile_append_of_pos hall]
  rfl

/-- The text in front of the first line. -/
theorem run_ethernetPrint {frame : List UInt8} (h14 : 14 ≤ frame.length) (tag : Option String) (leftpad : ℕ) :
    (ethernetPrint frame tag leftpad).run =
      (ethernetPrint frame none leftpad).run.map fun r => (r.1, tagText tag ++ r.2) := by
  rw [ethernetPrint, ethernetPrint, if_neg (Nat.not_lt.2 h14), if_neg (Nat.not_lt.2 h14),
    run_readNtohs_bind (by simp; omega), run_readNtohs_bind (by simp; omega)]
  cases tag with
  | none => simp [tagText]
  | some tag =>
    simp only [puts, run_emit_bind, tagText, Option.map_map]
    congr 1
    funext r
    simp

/-- The first line is about the Ethernet header. -/
theorem firstLine_ethernetPrint {frame : List UInt8} (h14 : 14 ≤ frame.length)
    (htype : ntohsUnaligned (bufOf frame) 12 = ethPIp) (leftpad : ℕ) :
    FirstLine (ethernetPrint frame none leftpad) (ipv4Print frame 14 (frame.length - 14) (leftpad + 2)) := by
  have hne : ethPIp ≠ ethPArp := by decide
  rw [ethernetPrint, if_neg (Nat.not_lt.2 h14)]
  refine FirstLine.congr (run_readNtohs_bind (by omega) _) ?_
  rw [htype, if_neg hne, if_pos rfl]
  refine FirstLine.seq (inline_pad _) (FirstLine.seq (inline_puts (by decide)) ?_)
  refine FirstLine.seq (inline_netPrintMac (by omega)) (FirstLine.seq (inline_puts (by decide)) ?_)
  refine FirstLine.seq (inline_netPrintMac (by omega)) (FirstLine.seq (inline_puts (by decide)) ?_)
  refine FirstLine.seq (inline_putHex16 _) (FirstLine.seq (inline_puts (by decide)) ?_)
  exact FirstLine.seq (inline_netPrintDecimalU8 _) (FirstLine.newline _)

/-- What `ipv4_print` calls after its line. -/
def transportPrint (frame : List UInt8) (packet length leftpad : ℕ) : Print Unit :=
  let ihl := ipHeaderLen frame packet
  let totalLen := ipTotalLen frame packet
  if length < ihl then pure ()
  else
    let payloadLen := if length > totalLen then (2 ^ 64 + totalLen - ihl) % 2 ^ 64 else length - ihl
    if bufOf frame (packet + 9) = ipprotoTcp then tcpPrint frame (packet + ihl) payloadLen (leftpad + 2)
    else if bufOf frame (packet + 9) = ipprotoUdp then udpPrint frame packet length (leftpad + 2)
    else if bufOf frame (packet + 9) = ipprotoIcmp then icmpPrint frame (packet + ihl) payloadLen (leftpad + 2)
    else pure ()

/-- The second line is about the IP header. -/
theorem firstLine_ipv4Print {frame : List UInt8} {packet length : ℕ} (leftpad : ℕ) (h20 : 20 ≤ length)
    (hlen : packet + length ≤ frame.length) :
    FirstLine (ipv4Print frame packet length leftpad) (transportPrint frame packet length leftpad) := by
  rw [ipv4Print, if_neg (Nat.not_lt.2 h20)]
  refine FirstLine.congr (run_readNtohs_bind (by omega) _) (FirstLine.congr (run_readNtohl_bind (by omega) _) ?_)
  refine FirstLine.congr (run_readNtohl_bind (by omega) _) ?_
  refine FirstLine.seq (inline_pad _) (FirstLine.seq (inline_puts (by decide)) ?_)
  refine FirstLine.seq (inline_netPrintIp _) (FirstLine.seq (inline_puts (by decide)) ?_)
  refine FirstLine.seq (inline_netPrintIp _) (FirstLine.seq (inline_puts (by decide)) ?_)
  refine FirstLine.congr (run_byte_bind (by omega) _) ?_
  refine FirstLine.seq (inline_netPrintDecimalU8 _) (FirstLine.seq (inline_puts (by decide)) ?_)
  refine FirstLine.congr (run_byte_bind (by omega) _) ?_
  refine FirstLine.seq (inline_netPrintDecimalU8 _) (FirstLine.seq (inline_puts (by decide)) ?_)
  refine FirstLine.seq (inline_netPrintDecimal _) ?_
  exact (FirstLine.newline _).congr_rest (run_byte_bind (by omega) _)

/-- A line about ports. -/
def portsLine (leftpad : ℕ) (name : String) (src dst : UInt16) (rest : List Char) : List Char :=
  List.replicate leftpad ' ' ++
    (name.toList ++ (decimal src.toNat ++ (" -> ".toList ++ (decimal dst.toNat ++ ' ' :: rest))))

/-- The third line of a UDP datagram. -/
theorem run_udpPrint {frame : List UInt8} {ipPacket length : ℕ} (leftpad : ℕ) (hlen : ipPacket + length ≤ frame.length)
    (h20 : 20 ≤ ipHeaderLen frame ipPacket) (h8 : ipHeaderLen frame ipPacket + 8 ≤ length) :
    ∃ rest, (udpPrint frame ipPacket length leftpad).run =
      some ((), portsLine leftpad "[UDP] " (ntohsUnaligned (bufOf frame) (ipPacket + ipHeaderLen frame ipPacket))
        (ntohsUnaligned (bufOf frame) (ipPacket + ipHeaderLen frame ipPacket + 2)) rest) := by
  have hinside : Inside (hexdump frame ipPacket length leftpad 0) := inside_hexdump leftpad 0 hlen
  obtain ⟨dump, hdump⟩ := exists_run_of_inside hinside
  rw [udpPrint, if_neg (by omega), run_byte_bind (by omega)]
  have hihl : ((bufOf frame ipPacket &&& 0x0F) * 4).toNat = ipHeaderLen frame ipPacket := rfl
  simp only [hihl]
  rw [if_neg (by omega), run_readNtohs_bind (by omega), run_readNtohs_bind (by omega), run_readNtohs_bind (by omega)]
  simp only [pad, puts, netPrintDecimalU16, netPrintDecimal_eq, run_emit_bind, hdump, Option.map_some]
  exact ⟨_, rfl⟩

/-- The third line of a TCP segment. -/
theorem run_tcpPrint {frame : List UInt8} {tcp length : ℕ} (leftpad : ℕ) (h20 : 20 ≤ length)
    (hlen : tcp + 20 ≤ frame.length) :
    ∃ rest, (tcpPrint frame tcp length leftpad).run =
      some ((), portsLine leftpad "[TCP] " (ntohsUnaligned (bufOf frame) tcp) (ntohsUnaligned (bufOf frame) (tcp + 2))
        rest) := by
  rw [tcpPrint, if_neg (by omega), run_readNtohs_bind (by omega), run_readNtohs_bind (by omega),
    run_readNtohl_bind (by omega), run_readNtohl_bind (by omega), run_readNtohs_bind (by omega),
    run_byte_bind (by omega)]
  simp only [pad, puts, netPrintDecimalU16, netPrintDecimalU32, netPrintDecimal_eq, run_emit_bind]
  rw [run_byte_bind (by omega)]
  simp only [run_emit_bind]
  exact ⟨_, rfl⟩

/-- The ports are read back. -/
theorem readPorts_portsLine (leftpad : ℕ) {name : String} (hname : name = "[UDP] " ∨ name = "[TCP] ") (src dst : UInt16)
    (rest : List Char) : readPorts (portsLine leftpad name src dst rest) = some (src.toNat, dst.toNat) := by
  have hpad : ∀ text : List Char, (List.replicate leftpad ' ' ++ '[' :: text).dropWhile (· == ' ') = '[' :: text := by
    intro text
    rw [List.dropWhile_append_of_pos (by simp [List.mem_replicate])]
    rfl
  have hdrop : (portsLine leftpad name src dst rest).dropWhile (· == ' ') =
      name.toList ++ (decimal src.toNat ++ (" -> ".toList ++ (decimal dst.toNat ++ ' ' :: rest))) := by
    rcases hname with rfl | rfl
    · exact hpad _
    · exact hpad _
  have hname' : ∀ text, (expect "[UDP] " (name.toList ++ text)).or (expect "[TCP] " (name.toList ++ text)) = some text := by
    intro text
    rcases hname with rfl | rfl
    · rw [expect_append]
      rfl
    · rw [expect_append]
      rfl
  have harrow : ∀ text, " -> ".toList ++ text = ' ' :: ("-> ".toList ++ text) := fun _ => rfl
  rw [readPorts, hdrop]
  simp only [hname', Option.bind_eq_bind, Option.bind_some]
  rw [harrow, readNumber_decimal, ← harrow]
  simp only [Option.bind_some, expect_append, readNumber_decimal]
  rfl

/-! ### Agreement -/

/-- An IPv4 frame with a valid IHL that has its IP header and its UDP or TCP header. -/
structure IsDatagram (frame : Frame) : Prop where
  ethType : ntohsUnaligned (bufOf frame) 12 = ethPIp
  ihl : 20 ≤ ipHeaderLen frame 14
  transport : (bufOf frame 23 = ipprotoUdp ∧ 14 + ipHeaderLen frame 14 + 8 ≤ frame.length) ∨
    (bufOf frame 23 = ipprotoTcp ∧ 14 + ipHeaderLen frame 14 + 20 ≤ frame.length)

/-- `tcp_print` finds the segment too small: the total length ends within its header. -/
def Truncated (frame : Frame) : Prop :=
  bufOf frame 23 = ipprotoTcp ∧ ipHeaderLen frame 14 ≤ ipTotalLen frame 14 ∧
    ipTotalLen frame 14 < ipHeaderLen frame 14 + 20

/-- The ports of the header behind the stated IP header. -/
def statedPorts (frame : Frame) : ℕ × ℕ :=
  ((ntohsUnaligned (bufOf frame) (14 + ipHeaderLen frame 14)).toNat,
    (ntohsUnaligned (bufOf frame) (14 + ipHeaderLen frame 14 + 2)).toNat)

instance (frame : Frame) : Decidable (Truncated frame) := inferInstanceAs (Decidable (_ ∧ _ ∧ _))

theorem IsDatagram.length {frame : Frame} (h : IsDatagram frame) : 14 + ipHeaderLen frame 14 + 8 ≤ frame.length := by
  rcases h.transport with ⟨-, hlen⟩ | ⟨-, hlen⟩
  · exact hlen
  · omega

/-- The length that `ipv4_print` passes on holds a TCP header unless the segment is truncated. -/
theorem payloadLen_ge_iff {length ihl total : ℕ} (hlen : ihl + 20 ≤ length) (hihl : ihl ≤ 60) (htotal : total < 2 ^ 16) :
    (20 ≤ if length > total then (2 ^ 64 + total - ihl) % 2 ^ 64 else length - ihl) ↔
      ¬ (ihl ≤ total ∧ total < ihl + 20) := by
  by_cases h1 : total < ihl
  · rw [if_pos (by omega), Nat.mod_eq_of_lt (by omega)]
    omega
  · split_ifs with h2
    · have hmod : (2 ^ 64 + total - ihl) % 2 ^ 64 = total - ihl := by
        rw [Nat.add_sub_assoc (by omega), Nat.add_mod_left, Nat.mod_eq_of_lt (by omega)]
      rw [hmod]
      omega
    · omega

/-- The third line. -/
theorem run_transportPrint {frame : Frame} (h : IsDatagram frame) (leftpad : ℕ) :
    ∃ text, (transportPrint frame 14 (frame.length - 14) leftpad).run = some ((), text) ∧
      readPorts text = if Truncated frame then none else some (statedPorts frame) := by
  have hlength := h.length
  have hihl := ipHeaderLen_le frame 14
  have htotal : ipTotalLen frame 14 < 2 ^ 16 := (ntohsUnaligned (bufOf frame) (14 + 2)).toNat_lt
  rw [transportPrint, if_neg (by omega)]
  rcases h.transport with ⟨hproto, hlen⟩ | ⟨hproto, hlen⟩
  · have hne : ipprotoUdp ≠ ipprotoTcp := by decide
    have hnot : ¬ Truncated frame := fun ht => hne (hproto.symm.trans ht.1)
    obtain ⟨rest, hrun⟩ := run_udpPrint (leftpad + 2) (by omega : 14 + (frame.length - 14) ≤ frame.length) h.ihl
      (by omega)
    change bufOf frame (14 + 9) = ipprotoUdp at hproto
    rw [hproto, if_neg hne, if_pos rfl, hrun, if_neg hnot]
    exact ⟨_, rfl, readPorts_portsLine _ (Or.inl rfl) _ _ _⟩
  · have hiff := payloadLen_ge_iff (by omega : ipHeaderLen frame 14 + 20 ≤ frame.length - 14) hihl htotal
    change bufOf frame (14 + 9) = ipprotoTcp at hproto
    simp only [hproto, if_true]
    by_cases ht : Truncated frame
    · rw [if_pos ht, tcpPrint, if_pos]
      · exact ⟨_, rfl, rfl⟩
      · rw [← Nat.not_le, hiff]
        exact not_not.2 ht.2
    · have h20 := hiff.2 fun htr => ht ⟨hproto, htr⟩
      obtain ⟨rest, hrun⟩ := run_tcpPrint (leftpad + 2) h20 hlen
      rw [if_neg ht, hrun]
      exact ⟨_, rfl, readPorts_portsLine _ (Or.inr rfl) _ _ _⟩

/-- What is printed are the ports of the header behind the stated IP header. -/
theorem run_ethernetPrint_ports {frame : Frame} (h : IsDatagram frame) (tag : Option String) (leftpad : ℕ) :
    ∃ text, (ethernetPrint frame tag leftpad).run = some ((), text) ∧
      printedPorts tag text = if Truncated frame then none else some (statedPorts frame) := by
  have hlength := h.length
  have h14 : 14 ≤ frame.length := by omega
  have hihl := h.ihl
  obtain ⟨third, hthird, hports⟩ := run_transportPrint h (leftpad + 2)
  have hip := firstLine_ipv4Print (leftpad + 2) (by omega : 20 ≤ frame.length - 14)
    (by omega : 14 + (frame.length - 14) ≤ frame.length)
  obtain ⟨second, hsecond, hdrop2⟩ := dropLine_of_firstLine hip hthird
  obtain ⟨first, hfirst, hdrop1⟩ := dropLine_of_firstLine (firstLine_ethernetPrint h14 h.ethType leftpad) hsecond
  refine ⟨tagText tag ++ first, ?_, ?_⟩
  · rw [run_ethernetPrint h14, hfirst]
    rfl
  · rw [printedPorts, List.drop_left, hdrop1, hdrop2, hports]

/-- The ports of a header twenty bytes behind the Ethernet header. -/
def fixedPorts (frame : Frame) : ℕ × ℕ :=
  ((ntohsUnaligned (bufOf frame) 34).toNat, (ntohsUnaligned (bufOf frame) 36).toNat)

/-- The ports that `ethernet_print` prints, if it prints any, are those that the applications read from their
buffer to decide whether to answer, and every answer goes back from the one port to the other. -/
def PortsAgree (frame : Frame) (tag : Option String) (leftpad : ℕ) : Prop :=
  ∃ text, (ethernetPrint frame tag leftpad).run = some ((), text) ∧
    ∀ src dst, printedPorts tag text = some (src, dst) →
      (∀ buffer : Buf,
        let buffer := store buffer 0 frame
        (bufOf frame 23 = ipprotoUdp →
          src = (PacketPrint.udpSrcPort buffer).toNat ∧ dst = (PacketPrint.udpDstPort buffer).toNat) ∧
        (bufOf frame 23 = ipprotoTcp →
          dst = (PacketPrint.tcpDstPort buffer).toNat ∧ src = (readSegment buffer).srcPort.toNat ∧
            dst = (readSegment buffer).dstPort.toNat)) ∧
      (∀ mac transmit s, ∀ answer ∈ (PacketPrint.receive mac transmit s frame).2, fixedPorts answer = (dst, src)) ∧
      ∀ mac s, ∀ answer ∈ (HttpHello.receive mac s frame).2, fixedPorts answer = (dst, src)

theorem readPorts_store {frame : Frame} (h : 42 ≤ frame.length) (buffer : Buf) :
    ((ntohsUnaligned (store buffer 0 frame) 34).toNat, (ntohsUnaligned (store buffer 0 frame) 36).toNat) =
      fixedPorts frame := by
  have hframe : ∀ i < 42, store buffer 0 frame i = bufOf frame i := by
    intro i hi
    exact HttpHello.store_zero_apply buffer (by omega)
  rw [HttpHello.ntohsUnaligned_congr hframe (by omega), HttpHello.ntohsUnaligned_congr hframe (by omega), fixedPorts]

/-! The answers. -/

theorem fixedPorts_pingFrame (mac buffer : Buf) (response : List UInt8) :
    fixedPorts (PacketPrint.pingFrame mac buffer response) =
      ((PacketPrint.udpDstPort buffer).toNat, (PacketPrint.udpSrcPort buffer).toNat) :=
  Prod.ext (congrArg UInt16.toNat (be16_htonsBytes _)) (congrArg UInt16.toNat (be16_htonsBytes _))

theorem fixedPorts_reply (mac buf : Buf) (seq ack : UInt32) (flags : UInt8) (payload : List UInt8) :
    fixedPorts (HttpHello.reply mac buf seq ack flags payload) =
      ((readSegment buf).dstPort.toNat, (readSegment buf).srcPort.toNat) :=
  Prod.ext (congrArg UInt16.toNat (be16_htonsBytes _)) (congrArg UInt16.toNat (be16_htonsBytes _))

/-- The answer of `packet_print.c` goes from the destination port to the source port. -/
theorem fixedPorts_packetPrint {frame : Frame} (h : IsDatagram frame) {mac : Buf} {transmit : Frame → Bool}
    {s : PacketPrint.State} {answer : Frame} (ha : answer ∈ (PacketPrint.receive mac transmit s frame).2) :
    fixedPorts answer = (fixedPorts frame).swap := by
  have hlength := h.length
  have hihl := h.ihl
  rw [PacketPrint.receive_ip (by omega) h.ethType] at ha
  rcases h.transport with ⟨hproto, -⟩ | ⟨hproto, -⟩
  · rw [hproto, if_pos rfl] at ha
    simp only [PacketPrint.handleUdp] at ha
    split_ifs at ha with hip hport hping
    · rw [PacketPrint.pingReply_eq] at ha
      obtain rfl := List.mem_singleton.1 ha
      rw [fixedPorts_pingFrame, ← readPorts_store (by omega) s.buffer]
      rfl
    all_goals simp at ha
  · rw [hproto, if_neg (by decide), if_pos rfl, PacketPrint.handleTcp] at ha
    split_ifs at ha
    all_goals simp at ha

/-- So do those of `http_hello.c`. -/
theorem fixedPorts_httpHello {frame : Frame} (h : IsDatagram frame) {mac : Buf} {s : HttpHello.State} {answer : Frame}
    (ha : answer ∈ (HttpHello.receive mac s frame).2) : fixedPorts answer = (fixedPorts frame).swap := by
  by_cases hseg : HttpHello.IsHttpSegment (bufOf frame) frame.length
  · rw [(HttpHello.receive_tcp mac s hseg).1] at ha
    obtain ⟨seq, ack, flags, rfl⟩ | ⟨-, ack, flags, rfl⟩ := HttpHello.mem_replies ha
    · exact fixedPorts_reply mac (bufOf frame) _ _ _ _
    · exact fixedPorts_reply mac (bufOf frame) _ _ _ _
  · have hne : ethPIp ≠ ethPArp := by decide
    rw [HttpHello.receive_other mac s (fun harp => hne (h.ethType.symm.trans harp.2)) hseg] at ha
    simp at ha

theorem portsAgree_iff_statedPorts {frame : Frame} (h : IsDatagram frame) (tag : Option String) (leftpad : ℕ) :
    PortsAgree frame tag leftpad ↔ Truncated frame ∨ statedPorts frame = fixedPorts frame := by
  have hlength := h.length
  have hihl := h.ihl
  obtain ⟨text, hrun, hports⟩ := run_ethernetPrint_ports h tag leftpad
  constructor
  · rintro ⟨text', hrun', hagree⟩
    by_cases ht : Truncated frame
    · exact Or.inl ht
    · right
      obtain rfl : text = text' := by simpa using hrun.symm.trans hrun'
      rw [if_neg ht] at hports
      obtain ⟨hudp, htcp⟩ := (hagree _ _ hports).1 fun _ => 0
      rw [← readPorts_store (by omega) fun _ => 0]
      rcases h.transport with ⟨hproto, -⟩ | ⟨hproto, -⟩
      · exact Prod.ext (hudp hproto).1 (hudp hproto).2
      · exact Prod.ext (htcp hproto).2.1 (htcp hproto).1
  · intro hsame
    refine ⟨text, hrun, ?_⟩
    intro src dst hprinted
    rcases hsame with ht | hsame
    · rw [hports, if_pos ht] at hprinted
      exact absurd hprinted (by simp)
    · have hboth : (src, dst) = fixedPorts frame := by
        rw [hports] at hprinted
        split_ifs at hprinted
        rw [← hsame]
        exact (Option.some.inj hprinted).symm
      have hswap : (fixedPorts frame).swap = (dst, src) := by rw [← hboth, Prod.swap_prod_mk]
      refine ⟨?_, ?_, ?_⟩
      · intro buffer
        rw [← readPorts_store (by omega) buffer] at hboth
        obtain ⟨rfl, rfl⟩ := Prod.ext_iff.1 hboth
        exact ⟨fun _ => ⟨rfl, rfl⟩, fun _ => ⟨rfl, rfl, rfl⟩⟩
      · intro mac transmit s answer ha
        exact (fixedPorts_packetPrint h ha).trans hswap
      · intro mac s answer ha
        exact (fixedPorts_httpHello h ha).trans hswap

theorem be16_inj_iff {a b c d : UInt8} : (be16 a b).toNat = (be16 c d).toNat ↔ a = c ∧ b = d := by
  have hb := b.toNat_lt
  have hd := d.toNat_lt
  rw [toNat_be16, toNat_be16, ← UInt8.toNat_inj, ← UInt8.toNat_inj]
  omega

/-- The four bytes behind the stated IP header are those twenty bytes behind the Ethernet header. -/
def SamePortBytes (frame : Frame) : Prop :=
  load (bufOf frame) (14 + ipHeaderLen frame 14) 4 = load (bufOf frame) 34 4

theorem statedPorts_eq_iff (frame : Frame) : statedPorts frame = fixedPorts frame ↔ SamePortBytes frame := by
  have hload : ∀ o, load (bufOf frame) o 4 = [bufOf frame o, bufOf frame (o + 1), bufOf frame (o + 2), bufOf frame (o + 3)] :=
    fun _ => rfl
  rw [statedPorts, fixedPorts, Prod.mk.injEq, SamePortBytes, hload, hload]
  simp only [ntohsUnaligned, be16_inj_iff, List.cons.injEq, and_true, and_assoc]

/-- For a datagram with a valid IHL, printer and applications agree on the ports exactly if the IP header has no
options, or the option bytes happen to be those of the ports, or the total length keeps `tcp_print` from printing
ports. -/
theorem portsAgree_iff {frame : Frame} (h : IsDatagram frame) (tag : Option String) (leftpad : ℕ) :
    PortsAgree frame tag leftpad ↔ ipHeaderLen frame 14 = 20 ∨ SamePortBytes frame ∨ Truncated frame := by
  rw [portsAgree_iff_statedPorts h, statedPorts_eq_iff]
  constructor
  · rintro (ht | hs)
    · exact Or.inr (Or.inr ht)
    · exact Or.inr (Or.inl hs)
  · rintro (hihl | hs | ht)
    · right
      rw [SamePortBytes, hihl]
    · exact Or.inr hs
    · exact Or.inl ht

/-- A datagram to port 5000 of `10.0.2.15` with an IP header of twenty-four bytes: four bytes of options. -/
def datagramWithOptions : Frame :=
  List.replicate 12 0 ++ [0x08, 0x00] ++
    [0x46, 0, 0, 32, 0, 0, 0, 0, 64, 17, 0, 0, 10, 0, 2, 2, 10, 0, 2, 15] ++ [1, 1, 1, 0] ++
    [0x04, 0xd2, 0x13, 0x88, 0, 8, 0, 0]

/-- The same without options. -/
def datagramWithoutOptions : Frame :=
  List.replicate 12 0 ++ [0x08, 0x00] ++
    [0x45, 0, 0, 28, 0, 0, 0, 0, 64, 17, 0, 0, 10, 0, 2, 2, 10, 0, 2, 15] ++ [0x04, 0xd2, 0x13, 0x88, 0, 8, 0, 0]

/-- Without options both agree. -/
theorem portsAgree_datagramWithoutOptions : PortsAgree datagramWithoutOptions none 0 :=
  (portsAgree_iff ⟨by decide, by decide, Or.inl ⟨by decide, by decide⟩⟩ none 0).2 (Or.inl (by decide))

/-- With options `1234 -> 5000` is printed, and the application reads `257 -> 256`. -/
theorem not_portsAgree_datagramWithOptions :
    IsDatagram datagramWithOptions ∧ statedPorts datagramWithOptions = (1234, 5000) ∧
      fixedPorts datagramWithOptions = (257, 256) ∧ ¬ PortsAgree datagramWithOptions none 0 := by
  have hdatagram : IsDatagram datagramWithOptions := ⟨by decide, by decide, Or.inl ⟨by decide, by decide⟩⟩
  refine ⟨hdatagram, by decide, by decide, ?_⟩
  rw [portsAgree_iff_statedPorts hdatagram]
  decide

end Yasouos.Apps.PrintedPorts
