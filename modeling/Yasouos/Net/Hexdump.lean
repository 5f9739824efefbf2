import Yasouos.Net.PrintText
import Yasouos.Theory.Hexdump

/-!
# The hexdump of a datagram

`udp_print` writes one line about the ports, and then the whole IP packet as a hexdump, sixteen bytes a
line. The bytes are rendered twice, in columns and as characters.

## The model

`dumpLines` cuts a packet into the lines that a reader of the dump is to find. A byte that is no
printable character is shown as a dot.

## What is proved

`readDump_udpPrint`: the reader finds these lines, and their bytes in order are the packet.
-/

namespace Yasouos.Net

open Yasouos.Theory Print

/-- How a byte is shown as a character. -/
def shownByte (b : UInt8) : Char := if b ≥ 32 ∧ b ≤ 126 then Char.ofNat b.toNat else '.'

/-- The line of a dump that starts at an offset. -/
def dumpLine (packet : List UInt8) (offset : ℕ) : DumpLine where
  offset := offset
  bytes := (packet.drop offset).take 16
  text := ((packet.drop offset).take 16).map shownByte

/-- The lines of a dump. -/
def dumpLines (packet : List UInt8) : List DumpLine :=
  (List.range ((packet.length + 15) / 16)).map fun j => dumpLine packet (16 * j)

/-! ### The lines and the packet -/

/-- The bytes of the lines are the packet. -/
theorem flatMap_bytes_dumpLines (packet : List UInt8) : (dumpLines packet).flatMap DumpLine.bytes = packet := by
  have htake : ∀ n, (List.range n).flatMap (fun j => (packet.drop (16 * j)).take 16) = packet.take (16 * n) := by
    intro n
    induction n with
    | zero => simp
    | succ n ih =>
      rw [List.range_succ, List.flatMap_append, ih, List.flatMap_singleton, Nat.mul_succ, List.take_add]
  rw [dumpLines, List.flatMap_map]
  change (List.range _).flatMap (fun j => (packet.drop (16 * j)).take 16) = packet
  rw [htake, List.take_of_length_le (by omega)]

theorem shownByte_ne_newline (b : UInt8) : shownByte b ≠ '\n' := by
  have hall : ∀ n < 256, shownByte (UInt8.ofNat n) ≠ '\n' := by decide +kernel
  have h := hall b.toNat b.toNat_lt
  rwa [UInt8.ofNat_toNat] at h

theorem wellFormed_dumpLine (packet : List UInt8) {offset : ℕ} (h : offset < 2 ^ 16) :
    (dumpLine packet offset).WellFormed where
  offset_lt := h
  length_le := List.length_take_le _ _
  one_line := by
    intro hmem
    obtain ⟨b, -, hb⟩ := List.mem_map.1 hmem
    exact shownByte_ne_newline b hb

/-! ### The text of the loops -/

section Text

variable {frame : List UInt8} {ipPacket length : ℕ}

/-- The packet in a frame. -/
def packetOf (frame : List UInt8) (ipPacket length : ℕ) : List UInt8 := (frame.drop ipPacket).take length

theorem length_packetOf (hlen : ipPacket + length ≤ frame.length) :
    (packetOf frame ipPacket length).length = length := by
  rw [packetOf, List.length_take, List.length_drop]
  omega

theorem getElem?_packetOf (hlen : ipPacket + length ≤ frame.length) {i : ℕ} (hi : i < length) :
    (packetOf frame ipPacket length)[i]? = some (bufOf frame (ipPacket + i)) := by
  have hframe : frame[ipPacket + i]? = some frame[ipPacket + i] := List.getElem?_eq_getElem _
  rw [packetOf, List.getElem?_take_of_lt hi, List.getElem?_drop, hframe, bufOf, List.getD_eq_getElem]

/-- The bytes of a line are in the frame. -/
theorem getElem?_bytes_dumpLine (hlen : ipPacket + length ≤ frame.length) (offset : ℕ) {i : ℕ} (hi : i < 16) :
    (dumpLine (packetOf frame ipPacket length) offset).bytes[i]? =
      if offset + i < length then some (bufOf frame (ipPacket + offset + i)) else none := by
  rw [dumpLine, List.getElem?_take_of_lt hi, List.getElem?_drop]
  split_ifs with h
  · rw [getElem?_packetOf hlen h, Nat.add_assoc]
  · rw [List.getElem?_eq_none_iff, length_packetOf hlen]
    omega

/-- A turn of the loop over the columns. -/
theorem run_column (hlen : ipPacket + length ≤ frame.length) (offset : ℕ) {i : ℕ} (hi : i < 16) :
    (do
      if i < (if length - offset > 16 then 16 else length - offset) then
        putHex8 (← byte frame (ipPacket + offset + i))
      else
        puts "  "
      puts " "
      if i = 7 then puts " " : Print Unit).run =
      some ((), column (dumpLine (packetOf frame ipPacket length) offset).bytes i ++ if i = 7 then [' '] else []) := by
  have hcolumn : (i < if length - offset > 16 then 16 else length - offset) ↔ offset + i < length := by
    split_ifs <;> omega
  rw [column, getElem?_bytes_dumpLine hlen offset hi]
  simp only [hcolumn]
  by_cases h : offset + i < length
  · simp only [if_pos h]
    rw [run_byte_bind (by omega)]
    split_ifs <;> rfl
  · simp only [if_neg h]
    split_ifs <;> rfl

/-- A turn of the loop over the characters. -/
theorem run_shown (hlen : ipPacket + length ≤ frame.length) (offset : ℕ) {i : ℕ}
    (hi : i < if length - offset > 16 then 16 else length - offset) :
    (do
      let c ← byte frame (ipPacket + offset + i)
      if c ≥ 32 ∧ c ≤ 126 then emit [Char.ofNat c.toNat] else puts "." : Print Unit).run =
      some ((), [shownByte (bufOf frame (ipPacket + offset + i))]) := by
  have hlt : offset + i < length := by
    split_ifs at hi <;> omega
  rw [run_byte_bind (by omega), shownByte]
  split_ifs <;> rfl

/-- How many bytes a line has. -/
theorem length_bytes_dumpLine (hlen : ipPacket + length ≤ frame.length) (offset : ℕ) :
    (dumpLine (packetOf frame ipPacket length) offset).bytes.length =
      if length - offset > 16 then 16 else length - offset := by
  rw [dumpLine, List.length_take, List.length_drop, length_packetOf hlen]
  split_ifs <;> omega

/-- The characters of a line. -/
theorem text_dumpLine (hlen : ipPacket + length ≤ frame.length) (offset : ℕ) :
    (List.range (if length - offset > 16 then 16 else length - offset)).flatMap
      (fun i => [shownByte (bufOf frame (ipPacket + offset + i))]) =
      (dumpLine (packetOf frame ipPacket length) offset).text := by
  have hmap : (dumpLine (packetOf frame ipPacket length) offset).text =
      (dumpLine (packetOf frame ipPacket length) offset).bytes.map shownByte := rfl
  have hcount := length_bytes_dumpLine hlen offset
  rw [← hcount, ← List.map_eq_flatMap, hmap]
  refine List.ext_getElem (by simp) fun i h₁ h₂ => ?_
  have hi : i < (dumpLine (packetOf frame ipPacket length) offset).bytes.length := by simpa using h₂
  have hlt : i < 16 ∧ offset + i < length := by
    rw [hcount] at hi
    split_ifs at hi <;> omega
  have hbyte := getElem?_bytes_dumpLine hlen offset hlt.1
  rw [if_pos hlt.2, List.getElem?_eq_getElem hi, Option.some.injEq] at hbyte
  rw [List.getElem_map, List.getElem_map, List.getElem_range, hbyte]

/-- A line of the dump. -/
theorem run_hexdumpLine (hlen : ipPacket + length ≤ frame.length) (leftpad : ℕ) {offset : ℕ} (ho : offset < length)
    (h16 : length < 2 ^ 16) :
    (hexdumpLine frame ipPacket length leftpad offset).run =
      some ((), (dumpLine (packetOf frame ipPacket length) offset).render (leftpad + 4) ++ ['\n']) := by
  have hoffset : (UInt16.ofNat offset).toNat = offset := by
    rw [UInt16.toNat_ofNat']
    omega
  have hcolumns := run_forM fun i hi => run_column hlen offset (List.mem_range.1 hi)
  have hshown := run_forM fun i hi => run_shown hlen offset (List.mem_range.1 hi)
  rw [text_dumpLine hlen] at hshown
  rw [columns_groups] at hcolumns
  simp only [puts] at hcolumns hshown
  rw [hexdumpLine]
  simp only [pad, puts, putHex16, run_emit_bind]
  rw [run_seq hcolumns, run_emit_bind, run_seq hshown, hoffset]
  simp only [DumpLine.render, emit, Option.map_some, List.append_assoc]
  rfl

/-- The lines from the `j`-th on. The induction is on how many there are. -/
theorem run_hexdump_from (hlen : ipPacket + length ≤ frame.length) (leftpad : ℕ) (h16 : length < 2 ^ 16) (m : ℕ) {j : ℕ}
    (hj : (length + 15) / 16 = j + m) :
    (hexdump frame ipPacket length leftpad (16 * j)).run = some ((), renderLines (((List.range' j m).map fun k =>
      dumpLine (packetOf frame ipPacket length) (16 * k)).map (DumpLine.render (leftpad + 4)))) := by
  induction m generalizing j with
  | zero =>
    rw [hexdump, if_neg (by omega)]
    rfl
  | succ m ih =>
    have hrest := ih (j := j + 1) (by omega)
    rw [hexdump, if_pos (by omega), run_seq (run_hexdumpLine hlen leftpad (by omega) h16),
      show 16 * j + 16 = 16 * (j + 1) by omega, hrest, List.range'_succ]
    rfl

/-- The text of the dump. -/
theorem run_hexdump (hlen : ipPacket + length ≤ frame.length) (leftpad : ℕ) (h16 : length < 2 ^ 16) :
    (hexdump frame ipPacket length leftpad 0).run =
      some ((), renderLines ((dumpLines (packetOf frame ipPacket length)).map (DumpLine.render (leftpad + 4)))) := by
  have h := run_hexdump_from hlen leftpad h16 ((length + 15) / 16) (Nat.zero_add _).symm
  rw [dumpLines, length_packetOf hlen, List.range_eq_range']
  exact h

/-- The line about the ports stands in front of the dump. -/
theorem firstLine_udpPrint (hlen : ipPacket + length ≤ frame.length) (leftpad : ℕ) (h28 : 28 ≤ length)
    (hihl : ipHeaderLen frame ipPacket + 8 ≤ length) :
    FirstLine (udpPrint frame ipPacket length leftpad) (hexdump frame ipPacket length leftpad 0) := by
  have heq : ((bufOf frame ipPacket &&& 0x0F) * 4).toNat = ipHeaderLen frame ipPacket := rfl
  rw [udpPrint, if_neg (by omega)]
  refine FirstLine.congr (run_byte_bind (by omega) _) ?_
  simp only [heq]
  rw [if_neg (by omega)]
  refine FirstLine.congr (run_readNtohs_bind (by omega) _) (FirstLine.congr (run_readNtohs_bind (by omega) _) ?_)
  refine FirstLine.congr (run_readNtohs_bind (by omega) _) ?_
  refine FirstLine.seq (inline_pad _) (FirstLine.seq (inline_puts (by decide)) ?_)
  refine FirstLine.seq (inline_netPrintDecimal _) (FirstLine.seq (inline_puts (by decide)) ?_)
  refine FirstLine.seq (inline_netPrintDecimal _) (FirstLine.seq (inline_puts (by decide)) ?_)
  exact FirstLine.seq (inline_netPrintDecimal _) (FirstLine.newline _)

/-! ### Reading the dump -/

/-- The lines of a dump: full ones, and a last one that is not empty. -/
structure LinesOf (packet : List UInt8) (lines : List DumpLine) : Prop where
  bytes : lines.flatMap DumpLine.bytes = packet
  offset : ∀ j (hj : j < lines.length), lines[j].offset = 16 * j
  full : ∀ j (hj : j < lines.length), j + 1 < lines.length → lines[j].bytes.length = 16
  short : ∀ l ∈ lines, 1 ≤ l.bytes.length ∧ l.bytes.length ≤ 16
  text : ∀ l ∈ lines, l.text = l.bytes.map shownByte

theorem linesOf_dumpLines (packet : List UInt8) : LinesOf packet (dumpLines packet) where
  bytes := flatMap_bytes_dumpLines packet
  offset := by
    intro j hj
    simp [dumpLines, dumpLine]
  full := by
    intro j hj hlast
    have hcount : j + 1 < (packet.length + 15) / 16 := by simpa [dumpLines] using hlast
    simp only [dumpLines, dumpLine, List.getElem_map, List.getElem_range, List.length_take, List.length_drop]
    omega
  short := by
    intro l hl
    obtain ⟨j, hj, rfl⟩ := List.mem_map.1 hl
    have hcount := List.mem_range.1 hj
    simp only [dumpLine, List.length_take, List.length_drop]
    omega
  text := by
    intro l hl
    obtain ⟨j, -, rfl⟩ := List.mem_map.1 hl
    rfl

/-- The dump of a packet that passes the checks of `udp_print` is read back as the packet. -/
theorem readDump_udpPrint (hlen : ipPacket + length ≤ frame.length) (leftpad : ℕ) (h28 : 28 ≤ length)
    (hihl : ipHeaderLen frame ipPacket + 8 ≤ length) (h16 : length < 65536) :
    ∃ header dump lines, (udpPrint frame ipPacket length leftpad).run = some ((), header ++ '\n' :: dump) ∧
      '\n' ∉ header ∧ readDump dump = some lines ∧ LinesOf (packetOf frame ipPacket length) lines := by
  obtain ⟨header, hheader, hrun⟩ := firstLine_udpPrint hlen leftpad h28 hihl
  rw [run_hexdump hlen leftpad h16, Option.map_some] at hrun
  refine ⟨header, _, dumpLines (packetOf frame ipPacket length), hrun, hheader, readDump_render ?_ _, linesOf_dumpLines _⟩
  intro l hl
  obtain ⟨j, hj, rfl⟩ := List.mem_map.1 hl
  have hcount := List.mem_range.1 hj
  rw [length_packetOf hlen] at hcount
  exact wellFormed_dumpLine _ (by omega)

end Text

/-- A datagram of one byte: its dump has a full line and a short one. -/
theorem readDump_udpPrint_short :
    let packet : List UInt8 := [0x45, 0, 0, 29, 0, 1, 0, 0, 64, 17, 0x62, 0xbc, 10, 0, 2, 2, 10, 0, 2, 15, 0xc0, 0, 0x13,
      0x88, 0, 9, 0, 0, 0x41]
    ∃ header dump lines, (udpPrint packet 0 29 4).run = some ((), header ++ '\n' :: dump) ∧
      '\n' ∉ header ∧ readDump dump = some lines ∧ LinesOf (packetOf packet 0 29) lines :=
  readDump_udpPrint (by decide) 4 (by decide) (by decide) (by decide)

end Yasouos.Net
