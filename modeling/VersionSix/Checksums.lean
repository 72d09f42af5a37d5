import Mathlib.Algebra.Order.BigOperators.Group.List
import VersionSix.NetSend
import VersionSix.OnesComplement

/-!
# Checksums

`calculate_tcp_checksum` and `calculate_ipv4_checksum` beside the checksum that
the protocols ask for: the complement of the one's complement sum of all words,
with a zero byte behind an odd one. `tcp.c` folds the carry in after every word
and is right (`tcp_checksum_verifies`). `ipv4.c` folds it in once, and that may
leave a second carry (`ipv4_checksum_iff`).

The sums are those of `OnesComplement`, on words in network order, to which the
code turns every word it reads; the checksum is turned back when it is stored.

A segment is summed in two pieces, the pseudo header and the rest, which may
end in half a word (`SumOf.odd`). With the checksum in its place all words
together make ones (`onesSum_stored`); that is what a receiver looks at.
-/

namespace VersionSix.Net

open ByteStore OnesComplement

/-! ## Words -/

/-- The words of some bytes in network order, the last one padded. -/
def words : List UInt8 → List ℕ
  | a :: b :: rest => (256 * a.toNat + b.toNat) :: words rest
  | [a] => [256 * a.toNat]
  | [] => []

def onesSum (bytes : List UInt8) : ℕ := OnesComplement.sum 0xFFFF (words bytes)

def internetChecksum (bytes : List UInt8) : ℕ := 0xFFFF - onesSum bytes

theorem words_append {xs ys : List UInt8} (h : xs.length % 2 = 0) :
    words (xs ++ ys) = words xs ++ words ys := by
  induction xs using words.induct with
  | case1 a b rest ih =>
      rw [List.cons_append, List.cons_append, words, words, List.cons_append]
      congr 1
      refine ih ?_
      simp only [List.length_cons] at h
      omega
  | case2 a => cases h
  | case3 => rfl

theorem words_le (bytes : List UInt8) : ∀ w ∈ words bytes, w ≤ 0xFFFF := by
  induction bytes using words.induct with
  | case1 a b rest ih =>
      intro w hw
      have ha := a.toNat_lt
      have hb := b.toNat_lt
      rcases List.mem_cons.mp hw with rfl | hw
      · omega
      · exact ih w hw
  | case2 a =>
      intro w hw
      have ha := a.toNat_lt
      rw [List.mem_singleton.mp hw]
      omega
  | case3 => exact fun w hw => absurd hw List.not_mem_nil

theorem onesSum_eq_rep (bytes : List UInt8) : onesSum bytes = rep 0xFFFF (words bytes).sum :=
  sum_eq_rep (by decide) (words_le bytes)

theorem words_bytesAt_two (b : Bytes) (off : Nat) :
    words (bytesAt b off 2) = [256 * (b off).toNat + (b (off + 1)).toNat] := rfl

/-! ## Byte order -/

theorem toNat_htons (x : UInt16) : (htons x).toNat = 256 * (x.toNat % 256) + x.toNat / 256 := by
  have hx := x.toNat_lt
  have hhigh : x.toNat / 2 ^ 8 < 2 ^ 8 := by omega
  refine Nat.eq_of_testBit_eq fun i => ?_
  have hbit : ∀ (y : UInt16) (j : Nat), y.toNat.testBit j = y.toBitVec.getLsbD j :=
    fun y j => BitVec.testBit_toNat y.toBitVec
  rw [show 256 * (x.toNat % 256) = 2 ^ 8 * (x.toNat % 2 ^ 8) from rfl,
    show x.toNat / 256 = x.toNat / 2 ^ 8 from rfl, Nat.testBit_two_pow_mul_add _ hhigh,
    Nat.testBit_div_two_pow, Nat.testBit_mod_two_pow, hbit, hbit, hbit]
  by_cases hi : i < 16
  · rw [getLsbD_htons x hi]
    split
    · next hlow =>
        congr 1
        omega
    · next hlow =>
        rw [decide_eq_true (show i - 8 < 8 by omega), Bool.true_and]
        congr 1
        omega
  · rw [BitVec.getLsbD_of_ge _ _ (by omega), if_neg (by omega),
      decide_eq_false (show ¬ i - 8 < 8 by omega), Bool.false_and]

theorem toNat_word (b : Bytes) (off : Nat) :
    (htons (field16 b off)).toNat = 256 * (b off).toNat + (b (off + 1)).toNat := by
  have h0 := (b off).toNat_lt
  have h1 := (b (off + 1)).toNat_lt
  have hfield : (field16 b off).toNat = (b off).toNat + 256 * (b (off + 1)).toNat := by
    rw [field16, UInt16.toNat_ofNat_of_lt' (Nat.lt_of_lt_of_le (le_lt 2 b off) (Nat.le_refl _))]
    simp [le]
  rw [toNat_htons, hfield]
  omega

theorem words_bytesAt (b : Bytes) (n : Nat) :
    words (bytesAt b 0 (2 * n)) =
      (List.range n).map fun i => (htons (field16 b (2 * i))).toNat := by
  induction n with
  | zero => rfl
  | succ n ih =>
      rw [Nat.mul_succ, bytesAt_add, words_append (by simp), ih, List.range_succ, List.map_append,
        Nat.zero_add, words_bytesAt_two, ← toNat_word]
      rfl

/-! ## Sums -/

theorem toNat_low (s : UInt32) : (s &&& 0xFFFF).toNat = s.toNat % 2 ^ 16 :=
  (UInt32.toNat_and ..).trans (Nat.and_two_pow_sub_one_eq_mod s.toNat 16)

theorem toNat_foldCarry (s : UInt32) : (foldCarry s).toNat =
    if s.toNat > 0xFFFF then s.toNat / 2 ^ 16 + s.toNat % 2 ^ 16 else s.toNat := by
  have hs := s.toNat_lt
  have hhigh : (s >>> 16).toNat = s.toNat / 2 ^ 16 := by
    rw [UInt32.toNat_shiftRight]
    exact Nat.shiftRight_eq_div_pow ..
  have hcmp : s > 0xFFFF ↔ s.toNat > 0xFFFF := UInt32.lt_iff_toNat_lt
  unfold foldCarry
  by_cases hbig : s.toNat > 0xFFFF
  · rw [if_pos (hcmp.mpr hbig), if_pos hbig, UInt32.toNat_add, toNat_low, hhigh, Nat.mod_eq_of_lt]
    omega
  · rw [if_neg (hcmp.not.mpr hbig), if_neg hbig]

theorem toNat_complement (s : UInt32) :
    ((~~~ (s &&& 0xFFFF)) &&& 0xFFFF).toUInt16.toNat = 0xFFFF - s.toNat % 2 ^ 16 := by
  have hnot : (~~~ (s &&& 0xFFFF)).toNat = 2 ^ 32 - 1 - s.toNat % 2 ^ 16 := by
    rw [UInt32.toNat_not, toNat_low]
    rfl
  rw [UInt32.toNat_toUInt16, toNat_low, hnot]
  omega

theorem toNat_foldCarry_add {s : UInt32} {w : UInt16} (hs : s.toNat ≤ 0xFFFF) :
    (foldCarry (s + w.toUInt32)).toNat = add 0xFFFF s.toNat w.toNat := by
  have hw := w.toNat_lt
  have hsum : (s + w.toUInt32).toNat = s.toNat + w.toNat := by
    rw [UInt32.toNat_add, UInt16.toNat_toUInt32, Nat.mod_eq_of_lt]
    omega
  rw [toNat_foldCarry, hsum, add]
  split <;> omega

/-- The sum so far is the one of the words `ws`. -/
def SumOf (s : UInt32) (ws : List ℕ) : Prop := s.toNat = OnesComplement.sum 0xFFFF ws

theorem SumOf.next {s : UInt32} {ws : List ℕ} (h : SumOf s ws) (hws : ∀ w ∈ ws, w ≤ 0xFFFF)
    (w : UInt16) : SumOf (foldCarry (s + w.toUInt32)) (ws ++ [w.toNat]) := by
  have hle : s.toNat ≤ 0xFFFF := by
    rw [h, sum_eq_rep (by decide) hws]
    exact rep_le (by decide) _
  rw [SumOf, toNat_foldCarry_add hle, sum_concat, ← h]

theorem SumOf.complement {s : UInt32} {bytes : List UInt8} (h : SumOf s (words bytes)) :
    ((~~~ (s &&& 0xFFFF)) &&& 0xFFFF).toUInt16.toNat = internetChecksum bytes := by
  have hle : s.toNat ≤ 0xFFFF := by
    rw [h, sum_eq_rep (by decide) (words_le _)]
    exact rep_le (by decide) _
  rw [toNat_complement, Nat.mod_eq_of_lt (by omega), h]
  rfl

theorem SumOf.loop {s : UInt32} {xs : List UInt8} (h : SumOf s (words xs))
    (hxs : xs.length % 2 = 0) (b : Bytes) (n : Nat) :
    SumOf (sumWords b n s) (words (xs ++ bytesAt b 0 (2 * n))) := by
  induction n with
  | zero =>
      rw [show bytesAt b 0 (2 * 0) = [] from rfl, List.append_nil]
      exact h
  | succ n ih =>
      have hnext := ih.next (words_le _) (htons (field16 b (2 * n)))
      have hloop : sumWords b (n + 1) s =
          foldCarry (sumWords b n s + (htons (field16 b (2 * n))).toUInt32) := by
        rw [sumWords, List.range_succ, List.foldl_append]
        rfl
      rw [hloop]
      rw [words_append hxs] at hnext ⊢
      rw [words_bytesAt, List.range_succ, List.map_append, ← words_bytesAt, ← List.append_assoc]
      exact hnext

/-! ## TCP -/

/-- What the checksum of a segment is of: the pseudo header, the header with
its options, and the payload. -/
def checkedBytes (p h : Bytes) (optionsLength : UInt16) (d : Bytes) (payloadSize : UInt32) :
    List UInt8 :=
  bytesAt p 0 12 ++ bytesAt h 0 (20 + optionsLength.toNat) ++ bytesAt d 0 payloadSize.toNat

section Tcp

variable {p h d : Bytes} {optionsLength : UInt16} {payloadSize : UInt32}

theorem tcpSum_headers (p h : Bytes) (heven : optionsLength.toNat % 2 = 0) :
    SumOf (sumWords h (10 + optionsLength.toNat / 2) (sumWords p 6 0))
      (words (bytesAt p 0 12 ++ bytesAt h 0 (20 + optionsLength.toNat))) := by
  have hnone : SumOf 0 (words []) := rfl
  have hpseudo := hnone.loop rfl p 6
  have hheader := hpseudo.loop (by simp) h (10 + optionsLength.toNat / 2)
  rw [show 2 * (10 + optionsLength.toNat / 2) = 20 + optionsLength.toNat by omega] at hheader
  exact hheader

/-- The byte behind the last whole word is summed as a word of its own. -/
theorem SumOf.odd {s : UInt32} {xs : List UInt8} (h : SumOf s (words xs))
    (hxs : xs.length % 2 = 0) (a : UInt8) :
    SumOf (foldCarry (s + (htons a.toUInt16).toUInt32)) (words (xs ++ [a])) := by
  have hword : (htons a.toUInt16).toNat = 256 * a.toNat := by
    have ha := a.toNat_lt
    rw [toNat_htons, UInt8.toNat_toUInt16]
    omega
  rw [words_append hxs, words, ← hword]
  exact h.next (words_le _) _

/-- The result is the complement of the sum of all that was summed. -/
theorem calculateTcpChecksum_eq (p h d : Bytes) (heven : optionsLength.toNat % 2 = 0)
    (hsize : payloadSize.toNat ≤ 65535) :
    (calculateTcpChecksum p h optionsLength d payloadSize).toNat =
      internetChecksum (checkedBytes p h optionsLength d payloadSize) := by
  have hwords : (payloadSize / 2).toUInt16.toNat = payloadSize.toNat / 2 := by
    rw [UInt32.toNat_toUInt16, UInt32.toNat_div]
    show payloadSize.toNat / 2 % 2 ^ 16 = _
    omega
  have hlen : (bytesAt p 0 12 ++ bytesAt h 0 (20 + optionsLength.toNat)).length % 2 = 0 := by
    simp only [List.length_append, length_bytesAt]
    omega
  have hpayload := (tcpSum_headers p h heven).loop hlen d (payloadSize.toNat / 2)
  unfold calculateTcpChecksum
  simp only [hwords]
  refine SumOf.complement ?_
  unfold checkedBytes
  split
  · next hodd =>
      have hlast : payloadSize.toNat = 2 * (payloadSize.toNat / 2) + 1 := by omega
      have heven' : (bytesAt p 0 12 ++ bytesAt h 0 (20 + optionsLength.toNat) ++
          bytesAt d 0 (2 * (payloadSize.toNat / 2))).length % 2 = 0 := by
        simp only [List.length_append, length_bytesAt]
        omega
      have hadd := hpayload.odd heven' (d (payloadSize.toNat / 2 * 2))
      have hbytes : bytesAt d 0 payloadSize.toNat = bytesAt d 0 (2 * (payloadSize.toNat / 2)) ++
          [d (payloadSize.toNat / 2 * 2)] := by
        conv_lhs => rw [hlast, bytesAt_add]
        rw [Nat.zero_add, Nat.mul_comm 2]
        rfl
      rw [hbytes, ← List.append_assoc]
      exact hadd
  · next heven' =>
      have hall : 2 * (payloadSize.toNat / 2) = payloadSize.toNat := by omega
      rw [hall] at hpayload
      exact hpayload

theorem bytesAt_stored (b : Bytes) (off n : Nat) (c : UInt16) :
    words (bytesAt (setLe 2 b off (htons c).toNat) off 2) = [c.toNat] ∧
      bytesAt (setLe 2 b off (htons c).toNat) 0 off = bytesAt b 0 off ∧
      bytesAt (setLe 2 b off (htons c).toNat) (off + 2) n = bytesAt b (off + 2) n := by
  refine ⟨?_, ?_, ?_⟩
  · rw [words_bytesAt_two, ← toNat_word, field16_setLe_same, htons_htons]
  · refine bytesAt_congr fun i hi => ?_
    unfold setLe
    rw [if_neg (by omega)]
  · refine bytesAt_congr fun i hi => ?_
    unfold setLe
    rw [if_neg (by omega)]

theorem words_around {pre post : List UInt8} (hpre : pre.length % 2 = 0) (b : Bytes)
    {off : Nat} (hoff : off % 2 = 0) (n : Nat) :
    words (pre ++ bytesAt b 0 (off + 2 + n) ++ post) =
      (words pre ++ words (bytesAt b 0 off)) ++
        words (bytesAt b off 2) ++ words (bytesAt b (off + 2) n ++ post) := by
  rw [bytesAt_add, bytesAt_add, Nat.zero_add, Nat.zero_add]
  simp only [List.append_assoc]
  rw [words_append hpre, words_append (by simpa using hoff), words_append (by simp)]

/-- A field that was 0 gets the checksum, and all words together make ones. -/
theorem onesSum_stored {pre post : List UInt8} (hpre : pre.length % 2 = 0) {b : Bytes}
    {off n : Nat} (hoff : off % 2 = 0) (hzero : b off = 0 ∧ b (off + 1) = 0) (c : UInt16) :
    onesSum (pre ++ bytesAt (setLe 2 b off (htons c).toNat) 0 (off + 2 + n) ++ post) =
      rep 0xFFFF ((words (pre ++ bytesAt b 0 (off + 2 + n) ++ post)).sum + c.toNat) := by
  obtain ⟨hc, hbefore, hbehind⟩ := bytesAt_stored b off n c
  have hold : words (bytesAt b off 2) = [0] := by
    rw [words_bytesAt_two, hzero.1, hzero.2]
    rfl
  have hlt := c.toNat_lt
  have hpart : ∀ w ∈ words pre ++ words (bytesAt b 0 off), w ≤ 0xFFFF := by
    intro w hw
    exact (List.mem_append.mp hw).elim (words_le _ w) (words_le _ w)
  rw [onesSum, words_around hpre _ hoff, words_around hpre _ hoff, hc, hbefore, hbehind, hold,
    List.append_assoc, List.singleton_append,
    sum_place (by decide) hpart (words_le _) (by omega), List.append_assoc _ [0],
    List.singleton_append]

/-- **TCP.** The checksum is the one of the protocol, and with it in place the
sum over the segment is all ones. This holds for every length of options and
payload, an odd one as well: the last byte is summed as the high byte of a
word, and every carry is folded in at once. -/
theorem tcp_checksum_verifies (heven : optionsLength.toNat % 2 = 0)
    (hsize : payloadSize.toNat ≤ 65535) (hzero : h 16 = 0 ∧ h 17 = 0) :
    (calculateTcpChecksum p h optionsLength d payloadSize).toNat =
        internetChecksum (checkedBytes p h optionsLength d payloadSize) ∧
      onesSum (checkedBytes p
        (setLe 2 h 16 (htons (calculateTcpChecksum p h optionsLength d payloadSize)).toNat)
        optionsLength d payloadSize) = 0xFFFF := by
  have hc := calculateTcpChecksum_eq p h d heven hsize
  refine ⟨hc, ?_⟩
  have hlen : 20 + optionsLength.toNat = 16 + 2 + (2 + optionsLength.toNat) := by omega
  unfold checkedBytes at hc ⊢
  rw [hlen] at hc ⊢
  rw [onesSum_stored (by simp) (by decide) hzero, hc, internetChecksum, onesSum_eq_rep,
    rep_add_complement (by decide)]

theorem tcp_checksum_verifies_odd :
    let c := calculateTcpChecksum (fun _ => 0) (fun _ => 0) 2 (fun _ => 7) 1
    c.toNat = internetChecksum (checkedBytes (fun _ => 0) (fun _ => 0) 2 (fun _ => 7) 1) ∧
      onesSum (checkedBytes (fun _ => 0) (setLe 2 (fun _ => 0) 16 (htons c).toNat) 2 (fun _ => 7)
        1) = 0xFFFF :=
  tcp_checksum_verifies (by decide) (by decide) ⟨rfl, rfl⟩

end Tcp

/-! ## IPv4 -/

/-- The total of the ten words of a header. -/
def headerTotal (packet : Bytes) : ℕ := (words (bytesAt packet 0 20)).sum

def FoldsOnce (packet : Bytes) : Prop :=
  headerTotal packet / 2 ^ 16 + headerTotal packet % 2 ^ 16 < 2 ^ 16

instance (packet : Bytes) : Decidable (FoldsOnce packet) := inferInstanceAs (Decidable (_ < _))

/-- The loop of `calculate_ipv4_checksum`, over `n` words. -/
def ipv4Sum (packet : Bytes) (n : Nat) : UInt32 :=
  (List.range n).foldl (fun sum i => sum + (htons (field16 packet (2 * i))).toUInt32) 0

theorem sum_words_le (packet : Bytes) (n : Nat) :
    (words (bytesAt packet 0 (2 * n))).sum ≤ n * 0xFFFF := by
  have hsum := List.sum_le_card_nsmul _ 0xFFFF (words_le (bytesAt packet 0 (2 * n)))
  rw [words_bytesAt, List.length_map, List.length_range, Nat.nsmul_eq_mul] at hsum
  rwa [words_bytesAt]

theorem toNat_ipv4Sum (packet : Bytes) {n : Nat} (hn : n ≤ 10) :
    (ipv4Sum packet n).toNat = (words (bytesAt packet 0 (2 * n))).sum := by
  induction n with
  | zero => rfl
  | succ n ih =>
      have hle := sum_words_le packet (n + 1)
      have hsplit : (words (bytesAt packet 0 (2 * (n + 1)))).sum =
          (words (bytesAt packet 0 (2 * n))).sum + (htons (field16 packet (2 * n))).toNat := by
        rw [words_bytesAt, List.range_succ, List.map_append, List.sum_append, ← words_bytesAt]
        rfl
      have hloop : ipv4Sum packet (n + 1) =
          ipv4Sum packet n + (htons (field16 packet (2 * n))).toUInt32 := by
        rw [ipv4Sum, List.range_succ, List.foldl_append]
        rfl
      rw [hloop, UInt32.toNat_add, ih (by omega), UInt16.toNat_toUInt32, ← hsplit]
      exact Nat.mod_eq_of_lt (by omega)

/-- `0x10000` is one more than all ones, so a second carry that is lost makes
the complement one too large. -/
theorem fold_complement {t : ℕ} (ht : t ≤ 10 * 0xFFFF) :
    0xFFFF - (if t > 0xFFFF then t / 2 ^ 16 + t % 2 ^ 16 else t) % 2 ^ 16 =
      0xFFFF - rep 0xFFFF t + if t / 2 ^ 16 + t % 2 ^ 16 < 2 ^ 16 then 0 else 1 := by
  have hdiv := Nat.div_add_mod t (2 ^ 16)
  by_cases hbig : t > 0xFFFF
  · rw [if_pos hbig]
    by_cases hone : t / 2 ^ 16 + t % 2 ^ 16 < 2 ^ 16
    · have hrep : rep 0xFFFF t = t / 2 ^ 16 + t % 2 ^ 16 := by
        have hsplit : t = 0xFFFF * (t / 2 ^ 16) + (t / 2 ^ 16 + t % 2 ^ 16) := by omega
        conv_lhs => rw [hsplit, rep_mul_add _ (by omega) (by omega)]
      rw [if_pos hone, hrep, Nat.mod_eq_of_lt hone, Nat.add_zero]
    · have hrep : rep 0xFFFF t = t / 2 ^ 16 + t % 2 ^ 16 - 0xFFFF := by
        have hsplit : t = 0xFFFF * (t / 2 ^ 16 + 1) + (t / 2 ^ 16 + t % 2 ^ 16 - 0xFFFF) := by
          omega
        conv_lhs => rw [hsplit, rep_mul_add _ (by omega) (by omega)]
      rw [if_neg hone, hrep]
      omega
  · rw [if_neg hbig, rep_of_le (by omega), if_pos (by omega)]
    omega

/-- A second carry is lost, and the result is one too large. -/
theorem toNat_calculateIpv4Checksum (packet : Bytes) :
    (calculateIpv4Checksum packet).toNat =
      internetChecksum (bytesAt packet 0 20) + if FoldsOnce packet then 0 else 1 := by
  have hsum : (ipv4Sum packet 10).toNat = headerTotal packet := toNat_ipv4Sum packet (by decide)
  have hle : headerTotal packet ≤ 10 * 0xFFFF := sum_words_le packet 10
  have hfold := toNat_foldCarry (ipv4Sum packet 10)
  rw [hsum] at hfold
  have hres : (calculateIpv4Checksum packet).toNat =
      0xFFFF - (foldCarry (ipv4Sum packet 10)).toNat % 2 ^ 16 := by
    unfold calculateIpv4Checksum
    exact toNat_complement _
  have hright : internetChecksum (bytesAt packet 0 20) =
      0xFFFF - rep 0xFFFF (headerTotal packet) := by
    rw [internetChecksum, onesSum_eq_rep, headerTotal]
  rw [hres, hfold, hright]
  unfold FoldsOnce
  exact fold_complement hle

/-- **IPv4.** The header verifies, and the checksum is the one of the protocol,
exactly if one fold leaves no second carry. With a second carry the complement
is one too large, since the carry is cut off; a receiver that sums the header
does not get all ones. -/
theorem ipv4_checksum_iff (packet : Bytes) (hzero : packet 10 = 0 ∧ packet 11 = 0) :
    let c := calculateIpv4Checksum packet
    (onesSum (bytesAt (setLe 2 packet 10 (htons c).toNat) 0 20) = 0xFFFF ↔ FoldsOnce packet) ∧
      (c.toNat = internetChecksum (bytesAt packet 0 20) ↔ FoldsOnce packet) := by
  have hc := toNat_calculateIpv4Checksum packet
  have hstored : onesSum ([] ++ bytesAt (setLe 2 packet 10
      (htons (calculateIpv4Checksum packet)).toNat) 0 (10 + 2 + 8) ++ []) = _ :=
    onesSum_stored rfl (by decide) hzero (calculateIpv4Checksum packet)
  simp only [List.nil_append, List.append_nil] at hstored
  dsimp only
  rw [hstored, hc, internetChecksum, onesSum_eq_rep]
  by_cases hone : FoldsOnce packet
  · simp only [hone, if_true, Nat.add_zero, iff_true, and_true]
    exact rep_add_complement (by decide) _
  · simp only [hone, if_false, iff_false]
    refine ⟨?_, by omega⟩
    rw [rep_add_complement_succ (by decide)]
    decide

/-- The header of 47 bytes, as `ipv4_send` fills it in on 10.0.2.15. -/
def headerTo (destination : UInt32) : Ipv4Packet :=
  { versionIhl := 0x45
    dscpEcn := 0
    length := htons 67
    ident := htons 1
    flagsFragment := 0
    ttl := 0x40
    protocol := IPV4_PROTOCOL_TCP
    checksum := 0
    source := htonl 0x0A00020F
    destination := htonl destination }

theorem ipv4_checksum_iff_oneCarry :
    let c := calculateIpv4Checksum (headerTo 0xC0A80001).bytes
    onesSum (bytesAt (setLe 2 (headerTo 0xC0A80001).bytes 10 (htons c).toNat) 0 20) = 0xFFFF ∧
      c.toNat = internetChecksum (bytesAt (headerTo 0xC0A80001).bytes 0 20) := by
  have hone : FoldsOnce (headerTo 0xC0A80001).bytes := by decide +kernel
  have hiff := ipv4_checksum_iff (headerTo 0xC0A80001).bytes (by decide +kernel)
  exact ⟨hiff.1.mpr hone, hiff.2.mpr hone⟩

def twoCarries : Ipv4Packet := headerTo 0xC0A8ADFE

/-- The checksum is 0xFFFF where the protocol asks for 0xFFFE, also in the
frame that `ipv4_send` makes. -/
theorem second_carry_lost :
    let c := calculateIpv4Checksum twoCarries.bytes
    c = 0xFFFF ∧ internetChecksum (bytesAt twoCarries.bytes 0 20) = 0xFFFE ∧
      onesSum (bytesAt (setLe 2 twoCarries.bytes 10 (htons c).toNat) 0 20) = 1 ∧
      onesSum (bytesAt (ipv4Send ⟨htonl 0x0A00020F, fun _ => 0⟩ 0xC0A8ADFE IPV4_PROTOCOL_TCP
        (fun _ => 0) 47).frame 14 20) = 1 := by
  decide +kernel

end VersionSix.Net
