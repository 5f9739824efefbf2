import Yasouos.Net.Tcp

/-!
# What the checksums are

`ipv4_checksum`, `ipv4_verify_checksum` and `tcp_checksum` sum in a 32-bit register and fold the
carries at the end. The result is swapped, and stored as it is.

## The model

`tcpMessage` is what a TCP checksum covers: the pseudo-header and the segment, with a zero byte more
if its length is odd. The reference is the sum of its words with an end-around carry, `onesSum`.

## What is proved

* `ipv4VerifyChecksum_checksum` — which stored checksums are accepted, and what follows from it for
  the headers that are built and for those in which a word has been changed.
* `tcpChecksum_onesSum` — `tcp_checksum` never overflows its register, and stores the complement of
  the sum of the pseudo-header and the segment.
-/

namespace Yasouos.Net

open Yasouos.Theory

/-! ### The header checksum -/

/-- A word in a string of bytes, with what is in front of it and behind it. -/
theorem load_word (buf : Buf) {o n : ℕ} (h : o + 2 ≤ n) :
    load buf 0 n = load buf 0 o ++ htonsBytes (ntohsUnaligned buf o) ++ load buf (o + 2) (n - (o + 2)) := by
  have hword : htonsBytes (ntohsUnaligned buf o) = load buf o 2 := by
    have hhi := (buf o).toNat_lt
    have hlo := (buf (o + 1)).toNat_lt
    simp only [htonsBytes, load, List.range_succ, List.range_zero, List.nil_append, List.cons_append, List.map_cons,
      List.map_nil, Nat.add_zero, List.cons.injEq, and_true]
    constructor
    · apply UInt8.toNat_inj.mp
      simp [ntohsUnaligned, toNat_be16, Nat.shiftRight_eq_div_pow]
      omega
    · apply UInt8.toNat_inj.mp
      simp [ntohsUnaligned, toNat_be16]
  conv_lhs => rw [← Nat.add_sub_of_le h, load_append, load_append]
  rw [hword, Nat.zero_add, Nat.zero_add]

/-- A word that is written replaces the one that was there. -/
theorem load_writeHtonsUnaligned (buf : Buf) {o n : ℕ} (h : o + 2 ≤ n) (w : UInt16) :
    load (writeHtonsUnaligned buf o w) 0 n = load buf 0 o ++ htonsBytes w ++ load buf (o + 2) (n - (o + 2)) := by
  have hmid : load (store buf o (htonsBytes w)) o 2 = htonsBytes w := load_store buf _ _
  conv_lhs => rw [← Nat.add_sub_of_le h, load_append, load_append]
  rw [Nat.zero_add, Nat.zero_add, writeHtonsUnaligned, hmid, load_store_outside _ _ _ (by simp),
    load_store_outside _ _ _ (by simp)]

/-- What a header sums to with one of its words set to zero. -/
def sumOthers (header : Buf) (i : ℕ) : ℕ := (words (load (writeHtonsUnaligned header (2 * i) 0) 0 20)).sum

/-- A word that is written counts as it is. -/
theorem toNat_sumWords_write (header : Buf) {i : ℕ} (hi : i < 10) (w : UInt16) :
    (sumWords (writeHtonsUnaligned header (2 * i) w) 10).toNat = sumOthers header i + w.toNat := by
  rw [toNat_sumWords _ (by decide), sumOthers, load_writeHtonsUnaligned header (by omega),
    load_writeHtonsUnaligned header (by omega), sum_words_checksum _ _ _ (by simp)]

theorem toNat_sumWords_word (header : Buf) {i : ℕ} (hi : i < 10) :
    (sumWords header 10).toNat = sumOthers header i + (ntohsUnaligned header (2 * i)).toNat := by
  rw [← toNat_sumWords_write header hi, toNat_sumWords _ (by decide), toNat_sumWords _ (by decide),
    load_word header (show 2 * i + 2 ≤ 2 * 10 by omega), load_writeHtonsUnaligned header (by omega)]

/-- `ipv4_verify_checksum` asks for a sum that folds to all ones. -/
theorem ipv4VerifyChecksum_iff_fold (header : Buf) :
    ipv4VerifyChecksum header = true ↔ fold (sumWords header 10).toNat = 65535 := by
  have hlt := fold_lt (sumWords header 10).toNat
  have hmask : fold (sumWords header 10).toNat &&& 65535 = fold (sumWords header 10).toNat := by
    rw [Nat.and_two_pow_sub_one_eq_mod _ 16, Nat.mod_eq_of_lt hlt]
  have hfold : (foldCarries (sumWords header 10) &&& 0xFFFF).toNat = fold (sumWords header 10).toNat := by
    rw [UInt32.toNat_and, toNat_foldCarries]
    exact hmask
  rw [ipv4VerifyChecksum, beq_iff_eq, ← UInt32.toNat_inj]
  change (foldCarries (sumWords header 10) &&& 0xFFFF).toNat = 65535 ↔ _
  rw [hfold]

theorem htons_htons (x : UInt16) : htons (htons x) = x := by
  have hx := x.toNat_lt
  apply UInt16.toNat_inj.mp
  rw [toNat_htons, toNat_htons]
  omega

/-- The checksum of a header, as a number. -/
theorem toNat_htons_ipv4Checksum (header : Buf) :
    (htons (ipv4Checksum header)).toNat = 65535 - fold (sumWords header 10).toNat := by
  rw [ipv4Checksum, htons_htons, toNat_complement]
  rfl

/-- The stored checksum that is accepted is the one that `ipv4_checksum` returns, where all ones stand for
zero too. So a header that `ipv4_build_header` wrote is accepted, and one in which a word has been changed
to another, not congruent modulo 65535, is not. -/
theorem ipv4VerifyChecksum_checksum :
    (∀ header : Buf,
      let c := ntohsUnaligned header 10
      let k := htons (ipv4Checksum (store16 header 10 0))
      ipv4VerifyChecksum header = true ↔ c = k ∨ k = 0 ∧ c = 0xFFFF) ∧
    (∀ (buf : Buf) (o : ℕ) (srcIp dstIp : UInt32) (protocol : UInt8) (payloadLength : UInt16) (ttl : UInt8),
      ipv4VerifyChecksum (advance (ipv4BuildHeader buf o srcIp dstIp protocol payloadLength ttl) o) = true) ∧
    ∀ (header : Buf) (i : ℕ) (w' : UInt16), i < 10 →
      let w := ntohsUnaligned header (2 * i)
      w'.toNat % 65535 ≠ w.toNat % 65535 → ipv4VerifyChecksum header = true →
      ipv4VerifyChecksum (writeHtonsUnaligned header (2 * i) w') = false := by
  refine ⟨?_, ?_, ?_⟩
  · intro header c k
    have hk : k.toNat = 65535 - fold (sumOthers header 5) := by
      have hzero : store16 header 10 0 = writeHtonsUnaligned header (2 * 5) 0 := rfl
      have hsum := toNat_sumWords_write header (show 5 < 10 by decide) 0
      rw [toNat_htons_ipv4Checksum, hzero, hsum, UInt16.toNat_zero, Nat.add_zero]
    rw [ipv4VerifyChecksum_iff_fold, toNat_sumWords_word header (show 5 < 10 by decide), fold_add_eq_ones_iff c.toNat_lt,
      ← hk, UInt16.toNat_inj, ← UInt16.toNat_inj (a := k), ← UInt16.toNat_inj (a := c) (b := 0xFFFF)]
    rfl
  · intro buf o srcIp dstIp protocol payloadLength ttl
    rw [ipv4BuildHeader_eq]
    exact ipv4VerifyChecksum_header (load_advance_store buf o _)
  · intro header i w' hi w hne hverify
    rw [ipv4VerifyChecksum_iff_fold, toNat_sumWords_word header hi, fold_eq_ones_iff] at hverify
    rw [← Bool.not_eq_true, ipv4VerifyChecksum_iff_fold, toNat_sumWords_write header hi, fold_eq_ones_iff]
    rintro ⟨-, hw'⟩
    -- both words complete the same sum to a multiple of 65535
    have hw : (sumOthers header i + w.toNat) % 65535 = 0 := hverify.2
    omega

/-- A header that was accepted, with another time to live. -/
theorem ipv4VerifyChecksum_changed_ttl :
    ipv4VerifyChecksum (writeHtonsUnaligned
      (advance (ipv4BuildHeader (fun _ => 0) 0 0x0202000A 0x0F02000A ipprotoUdp 8 64) 0) (2 * 4) 0x3F11) = false := by
  apply ipv4VerifyChecksum_checksum.2.2 _ 4 0x3F11 (by decide)
  · rw [ipv4BuildHeader_eq]
    decide
  · exact ipv4VerifyChecksum_checksum.2.1 _ _ _ _ _ _ _

/-! ### The segment checksum -/

/-- The message that a TCP checksum covers. -/
def tcpMessage (srcIp dstIp : UInt32) (segment : List UInt8) : List UInt8 :=
  pseudoHeader srcIp dstIp (UInt16.ofNat segment.length) ++ padded segment

/-- What is added are the words of the message, one after another. -/
theorem map_toNat_tcpAddends_message (srcIp dstIp : UInt32) (tcpSegment : Buf) (tcpLength : UInt16) :
    (tcpAddends srcIp dstIp tcpSegment tcpLength).map UInt32.toNat =
      words (tcpMessage srcIp dstIp (load tcpSegment 0 tcpLength.toNat)) := by
  rw [map_toNat_tcpAddends, tcpMessage, length_load, UInt16.ofNat_toNat, words_append (by simp [pseudoHeader]),
    words_padded]

/-- The carries of a message can be folded at the end. -/
theorem fold_tcpMessage (srcIp dstIp : UInt32) (segment : List UInt8) :
    fold (words (tcpMessage srcIp dstIp segment)).sum = onesSum (words (tcpMessage srcIp dstIp segment)) :=
  fold_sum fun _ => word_lt

theorem toNat_tcpSum_message (srcIp dstIp : UInt32) (tcpSegment : Buf) (tcpLength : UInt16) :
    (tcpSum srcIp dstIp tcpSegment tcpLength).toNat =
      (words (tcpMessage srcIp dstIp (load tcpSegment 0 tcpLength.toNat))).sum := by
  rw [toNat_tcpSum, ← List.sum_append, ← map_toNat_tcpAddends, map_toNat_tcpAddends_message]

theorem toNat_not_ofNat {n : ℕ} (h : n < 2 ^ 16) : (~~~ UInt16.ofNat n).toNat = 65535 - n := by
  rw [UInt16.toNat_not, UInt16.toNat_ofNat', Nat.mod_eq_of_lt h]
  rfl

/-- What is stored is the complement of the sum with an end-around carry. -/
theorem tcpChecksum_eq_not_onesSum (srcIp dstIp : UInt32) (tcpSegment : Buf) (tcpLength : UInt16) :
    tcpChecksum srcIp dstIp tcpSegment tcpLength =
      htons (~~~ UInt16.ofNat (onesSum (words (tcpMessage srcIp dstIp (load tcpSegment 0 tcpLength.toNat))))) := by
  rw [tcpChecksum, ← fold_tcpMessage]
  congr 1
  apply UInt16.toNat_inj.mp
  rw [toNat_complement, toNat_tcpSum_message, toNat_not_ofNat (fold_lt _)]

/-- A word of the segment counts as one word of the message. -/
theorem sum_words_tcpMessage_write (srcIp dstIp : UInt32) (tcpSegment : Buf) {n : ℕ} (hn : 18 ≤ n) (w : UInt16) :
    (words (tcpMessage srcIp dstIp (load (writeHtonsUnaligned tcpSegment 16 w) 0 n))).sum =
      (words (tcpMessage srcIp dstIp (load (writeHtonsUnaligned tcpSegment 16 0) 0 n))).sum + w.toNat := by
  rw [tcpMessage, tcpMessage, words_append (by simp [pseudoHeader]), words_append (by simp [pseudoHeader]),
    words_padded, words_padded, load_writeHtonsUnaligned tcpSegment hn, load_writeHtonsUnaligned tcpSegment hn,
    List.sum_append, List.sum_append, sum_words_checksum _ _ _ (by simp)]
  simp only [List.length_append, length_load, length_htonsBytes]
  omega

/-- Where the field was zero, the checksum completes the message. -/
theorem fold_tcpMessage_checksum (srcIp dstIp : UInt32) {tcpSegment : Buf} {tcpLength : UInt16}
    (hlen : 18 ≤ tcpLength.toNat) (hzero : load16 tcpSegment 16 = 0) :
    fold (words (tcpMessage srcIp dstIp (load (store16 tcpSegment 16 (tcpChecksum srcIp dstIp tcpSegment tcpLength)) 0
      tcpLength.toNat))).sum = 65535 := by
  have hfield : load (writeHtonsUnaligned tcpSegment 16 0) 0 tcpLength.toNat = load tcpSegment 0 tcpLength.toNat := by
    have hword : ntohsUnaligned tcpSegment 16 = 0 := by
      rw [← ntohs_load16, hzero]
      rfl
    rw [load_writeHtonsUnaligned tcpSegment hlen, load_word tcpSegment hlen, hword]
  rw [tcpChecksum_eq_not_onesSum, store16_htons, sum_words_tcpMessage_write _ _ _ hlen, hfield, ← fold_tcpMessage,
    toNat_not_ofNat (fold_lt _), fold_add_complement]

/-- `tcp_checksum` adds the words of the message one after another, without an overflow of its register, then
or when the carries are folded. What is stored is the complement of their one's-complement sum, the high
byte first. So where the checksum field was zero, the message sums to all ones with the checksum in it. -/
theorem tcpChecksum_onesSum (srcIp dstIp : UInt32) (tcpSegment : Buf) (tcpLength : UInt16) :
    let addends := tcpAddends srcIp dstIp tcpSegment tcpLength
    let message := fun segment => tcpMessage srcIp dstIp (load segment 0 tcpLength.toNat)
    let checksum := tcpChecksum srcIp dstIp tcpSegment tcpLength
    (tcpSum srcIp dstIp tcpSegment tcpLength = addends.foldl (· + ·) 0 ∧
      (∀ n, ((addends.take n).foldl (· + ·) 0).toNat = ((addends.take n).map UInt32.toNat).sum) ∧
      ∀ sum : UInt32,
        ((sum &&& (0xFFFF : UInt32)) + (sum >>> 16)).toNat = (sum &&& (0xFFFF : UInt32)).toNat + (sum >>> 16).toNat) ∧
    (∀ buf o, store16 buf o checksum = writeHtonsUnaligned buf o (~~~ UInt16.ofNat (onesSum (words (message tcpSegment))))) ∧
    (18 ≤ tcpLength.toNat → load16 tcpSegment 16 = 0 →
      onesSum (words (message (store16 tcpSegment 16 checksum))) = 0xFFFF ∧
      foldCarries (tcpSum srcIp dstIp (store16 tcpSegment 16 checksum) tcpLength) = 0xFFFF) := by
  intro addends message checksum
  have hck : checksum = htons (~~~ UInt16.ofNat (onesSum (words (message tcpSegment)))) :=
    tcpChecksum_eq_not_onesSum srcIp dstIp tcpSegment tcpLength
  refine ⟨⟨tcpSum_eq_foldl _ _ _ _, ?_, ?_⟩, ?_, ?_⟩
  · intro n
    have hlt := sum_tcpAddends_lt srcIp dstIp tcpSegment tcpLength
    have hle : ((addends.take n).map UInt32.toNat).sum ≤ (addends.map UInt32.toNat).sum := by
      rw [List.map_take]
      exact ((List.take_sublist _ _).sum_le_sum fun _ _ => Nat.zero_le _)
    have hfits : (0 : UInt32).toNat + ((addends.take n).map UInt32.toNat).sum < 2 ^ 32 := by
      rw [UInt32.toNat_zero, Nat.zero_add]
      exact Nat.lt_of_le_of_lt hle hlt
    rw [toNat_foldl_add hfits, UInt32.toNat_zero, Nat.zero_add]
  · intro sum
    have hsum := sum.toNat_lt
    have hmask : sum.toNat &&& 65535 = sum.toNat % 2 ^ 16 := Nat.and_two_pow_sub_one_eq_mod sum.toNat 16
    simp only [UInt32.toNat_add, UInt32.toNat_and, UInt32.toNat_shiftRight, UInt32.reduceToNat, Nat.reduceMod,
      Nat.shiftRight_eq_div_pow, hmask]
    omega
  · intro buf o
    rw [hck, store16_htons]
  · intro hlen hzero
    have hfold := fold_tcpMessage_checksum srcIp dstIp hlen hzero
    refine ⟨(fold_tcpMessage _ _ _).symm.trans hfold, ?_⟩
    apply UInt32.toNat_inj.mp
    rw [toNat_foldCarries, toNat_tcpSum_message]
    exact hfold

/-- A segment of an odd length. -/
theorem tcpChecksum_onesSum_odd :
    onesSum (words (tcpMessage 0x0202000A 0x0F02000A (load (store16 (fun _ => 0) 16
      (tcpChecksum 0x0202000A 0x0F02000A (fun _ => 0) 21)) 0 21))) = 0xFFFF :=
  ((tcpChecksum_onesSum 0x0202000A 0x0F02000A (fun _ => 0) 21).2.2 (by decide) (by decide)).1

end Yasouos.Net
