import Yasouos.Apps.HttpHello
import Yasouos.Theory.Http

/-!
# The response as a message

`build_http_response` writes the body into a buffer of its own, and renders the length of it into the
header by a second routine. A client on a connection that is kept alive relies on that number to know
where the response ends.

## The model

`helloMessage` is the message that the client is to read. `readQuad` reads an address in dotted
notation; it takes no octet with a zero in front.

## What is proved

`readMessage_buildHttpResponse`: for every address the client reads this message, with the address in
it, and nothing of what follows; the three buffers are long enough.
-/

namespace Yasouos.Apps.HttpHello

open Yasouos.Theory Yasouos.Net

/-! ### Numbers -/

/-- `write_decimal_u8` writes the numeral. -/
theorem writeDecimalU8_eq (value : UInt8) : writeDecimalU8 value = numeral value.toNat := by
  have hv := value.toNat_lt
  have hdigit : ∀ {d : ℕ} {b : UInt8}, b.toNat = d → d < 10 → 0x30 + b = UInt8.ofNat (0x30 + d) := by
    intro d b hb hd
    apply UInt8.toNat_inj.mp
    rw [toNat_digit hd, UInt8.toNat_add, hb]
    change (0x30 + d) % 2 ^ 8 = 0x30 + d
    omega
  have h100 : value ≥ 100 ↔ 100 ≤ value.toNat := UInt8.le_iff_toNat_le
  have h10 : value ≥ 10 ↔ 10 ≤ value.toNat := UInt8.le_iff_toNat_le
  have hdiv : ∀ a b : UInt8, (a / b).toNat = a.toNat / b.toNat := UInt8.toNat_div
  have hmod : ∀ a b : UInt8, (a % b).toNat = a.toNat % b.toNat := UInt8.toNat_mod
  rw [writeDecimalU8]
  split_ifs with h h'
  · rw [h100] at h
    rw [numeral_of_ge (by omega), numeral_of_ge (by omega), numeral_of_lt (by omega)]
    simp only [List.cons_append, List.nil_append]
    rw [hdigit (d := value.toNat / 10 / 10) (by rw [hdiv]; change value.toNat / 100 = _; omega) (by omega),
      hdigit (d := value.toNat / 10 % 10) (by rw [hdiv, hmod]; change value.toNat % 100 / 10 = _; omega) (by omega),
      hdigit (d := value.toNat % 10) (by rw [hmod, hmod]; change value.toNat % 100 % 10 = _; omega) (by omega)]
  · rw [h100] at h
    rw [h10] at h'
    rw [numeral_of_ge h', numeral_of_lt (by omega)]
    simp only [List.cons_append, List.nil_append]
    rw [hdigit (d := value.toNat / 10) (hdiv _ _) (by omega), hdigit (d := value.toNat % 10) (hmod _ _) (by omega)]
  · rw [h10] at h'
    rw [numeral_of_lt (by omega), hdigit rfl (by omega)]

/-- The digits that a loop finds, turned round, are the numeral. -/
theorem reverse_decimalDigits {value : ℕ} (h : 0 < value) : (decimalDigits value).reverse = numeral value := by
  induction value using Nat.strongRecOn with
  | ind value ih =>
    have hdigit : 0x30 + UInt8.ofNat (value % 10) = UInt8.ofNat (0x30 + value % 10) := by
      rw [UInt8.ofNat_add]
      rfl
    rw [decimalDigits, if_pos h, List.reverse_cons, hdigit]
    by_cases hlt : value < 10
    · have hzero : value / 10 = 0 := by omega
      rw [numeral_of_lt hlt, hzero, decimalDigits, if_neg (by omega), Nat.mod_eq_of_lt hlt]
      rfl
    · rw [numeral_of_ge (Nat.not_lt.1 hlt), ih (value / 10) (by omega) (by omega)]

/-- `write_decimal_size` writes the numeral. -/
theorem writeDecimalSize_eq (value : ℕ) : writeDecimalSize value = numeral value := by
  rw [writeDecimalSize]
  split_ifs with h
  · rw [h]
    rfl
  · exact reverse_decimalDigits (Nat.pos_of_ne_zero h)

/-! ### Addresses -/

/-- An octet in decimal notation. -/
def readOctet (l : List UInt8) : Option UInt8 := do
  let n ← readNumeral l
  if n < 256 then return UInt8.ofNat n else none

/-- An address in dotted notation. -/
def readQuad (l : List UInt8) : Option UInt32 :=
  match (l.splitOnP (· == 0x2e)).map readOctet with
  | [some a, some b, some c, some d] => some (be32 a b c d)
  | _ => none

/-- Four octets in dotted notation. -/
def quad (a b c d : UInt8) : List UInt8 :=
  numeral a.toNat ++ 0x2e :: (numeral b.toNat ++ 0x2e :: (numeral c.toNat ++ 0x2e :: numeral d.toNat))

theorem readOctet_numeral (a : UInt8) : readOctet (numeral a.toNat) = some a := by
  rw [readOctet, readNumeral_numeral]
  simp only [Option.bind_eq_bind, Option.bind_some]
  rw [if_pos a.toNat_lt, UInt8.ofNat_toNat]
  rfl

theorem not_dot_of_mem_numeral {n : ℕ} {b : UInt8} (h : b ∈ numeral n) : (b == 0x2e) = false := by
  have hb := isDigit_of_mem_numeral h
  rw [beq_eq_false_iff_ne]
  rintro rfl
  exact absurd hb (by decide)

theorem readQuad_quad (a b c d : UInt8) : readQuad (quad a b c d) = some (be32 a b c d) := by
  have hsplit : (quad a b c d).splitOnP (· == 0x2e) =
      [numeral a.toNat, numeral b.toNat, numeral c.toNat, numeral d.toNat] := by
    rw [quad, List.splitOnP_append_cons_of_forall_mem (fun _ => not_dot_of_mem_numeral) _ rfl,
      List.splitOnP_append_cons_of_forall_mem (fun _ => not_dot_of_mem_numeral) _ rfl,
      List.splitOnP_append_cons_of_forall_mem (fun _ => not_dot_of_mem_numeral) _ rfl,
      List.splitOnP_eq_singleton fun _ => not_dot_of_mem_numeral]
  rw [readQuad, hsplit]
  simp only [List.map_cons, List.map_nil, readOctet_numeral]

/-- The address of a client in dotted notation. -/
def ipQuad (ipHost : UInt32) : List UInt8 :=
  quad (ipHost >>> 24).toUInt8 (ipHost >>> 16).toUInt8 (ipHost >>> 8).toUInt8 ipHost.toUInt8

theorem readQuad_ipQuad (ipHost : UInt32) : readQuad (ipQuad ipHost) = some ipHost := by
  rw [ipQuad, readQuad_quad, be32_htonlBytes]

/-- The body is a greeting with the address. -/
theorem writeHelloIp_eq (ipHost : UInt32) :
    writeHelloIp ipHost = textBytes "Hello, " ++ ipQuad ipHost ++ textBytes "\n" := by
  simp only [writeHelloIp, writeDecimalU8_eq, ipQuad, quad, List.append_assoc, List.cons_append]
  rfl

/-! ### The message -/

/-- The response that a client is to read. -/
def helloMessage (clientIpHost : UInt32) : HttpMessage where
  start := textBytes "HTTP/1.1 200 OK"
  fields := [(textBytes "Connection", textBytes "keep-alive"), (textBytes "Content-Type", textBytes "text/plain"),
    (textBytes "Content-Length", numeral (writeHelloIp clientIpHost).length)]
  body := writeHelloIp clientIpHost

theorem buildHttpResponse_eq_render (clientIpHost : UInt32) :
    buildHttpResponse clientIpHost = (helloMessage clientIpHost).render := by
  have hhead : ascii "HTTP/1.1 200 OK\r\nConnection: keep-alive\r\nContent-Type: text/plain\r\nContent-Length: " =
      textBytes "HTTP/1.1 200 OK" ++ crlf ++ (renderField (textBytes "Connection", textBytes "keep-alive") ++
        (renderField (textBytes "Content-Type", textBytes "text/plain") ++ (textBytes "Content-Length" ++ [0x3a, 0x20]))) :=
    rfl
  have hblank : ascii "\r\n\r\n" = crlf ++ crlf := rfl
  simp only [buildHttpResponse, hhead, hblank, writeDecimalSize_eq, helloMessage, HttpMessage.render, List.flatMap_cons,
    List.flatMap_nil, List.append_nil, List.append_assoc, renderField]

theorem fieldOk_contentLength (n : ℕ) : FieldOk (textBytes "Content-Length", numeral n) := by
  have hname : textBytes "Content-Length" ≠ [] ∧ 0x3a ∉ textBytes "Content-Length" ∧ 0x0d ∉ textBytes "Content-Length" := by
    decide
  refine ⟨hname.1, hname.2.1, fun h => ?_, hname.2.2, fun h => ?_⟩
  · exact absurd (isDigit_of_mem_numeral (List.mem_of_head? h)) (by decide)
  · exact absurd (isDigit_of_mem_numeral h) (by decide)

theorem wellFormed_helloMessage (clientIpHost : UInt32) : (helloMessage clientIpHost).WellFormed where
  start_no_cr := by
    change (0x0d : UInt8) ∉ textBytes "HTTP/1.1 200 OK"
    decide
  fields_ok := by
    intro f hf
    simp only [helloMessage, List.mem_cons, List.not_mem_nil, or_false] at hf
    rcases hf with rfl | rfl | rfl
    · exact ⟨by decide, by decide, by decide, by decide⟩
    · exact ⟨by decide, by decide, by decide, by decide⟩
    · exact fieldOk_contentLength _
  length_eq := readNumeral_numeral _

/-- A client reads the response as a message of its own: the status is 200, the body is the greeting with its
address, and as long as the header says; what follows on the connection is left for the next message. The
buffers `body`, `digits` and `http_buf` are long enough. -/
theorem readMessage_buildHttpResponse (clientIpHost : UInt32) (next : List UInt8) :
    ∃ (m : HttpMessage) (address : List UInt8),
      readMessage (buildHttpResponse clientIpHost ++ next) = some (m, next) ∧
      readStatusLine m.start = some (200, textBytes "OK") ∧ contentLength m.fields = some m.body.length ∧
      m.body = textBytes "Hello, " ++ address ++ textBytes "\n" ∧ readQuad address = some clientIpHost ∧
      (writeHelloIp clientIpHost).length ≤ 32 ∧ (decimalDigits (writeHelloIp clientIpHost).length).length ≤ 4 ∧
      (buildHttpResponse clientIpHost).length ≤ 192 := by
  have hbody := length_writeHelloIp clientIpHost
  have hstatus : readStatusLine (textBytes "HTTP/1.1 200 OK") = some (200, textBytes "OK") := by decide
  refine ⟨helloMessage clientIpHost, ipQuad clientIpHost, ?_, hstatus, (wellFormed_helloMessage _).length_eq,
    writeHelloIp_eq _, readQuad_ipQuad _, by omega, length_decimalDigits (by omega), (length_buildHttpResponse _).2⟩
  rw [buildHttpResponse_eq_render]
  exact readMessage_render (wellFormed_helloMessage _) next

end Yasouos.Apps.HttpHello
