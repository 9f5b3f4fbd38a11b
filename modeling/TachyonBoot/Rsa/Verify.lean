/-
This file models the check of an RSA signature in `lib/rsa/rsa-verify.c` with PKCS#1 v1.5
padding, and tells for which keys it is exact.

The power of the signature is computed into a buffer that is as long as the signature. The
padding is then checked in pieces, with a length that does not come from the key but from the
name of the algorithm. Reads are modelled with the bounds of the buffer. It turns out that the
block that the padding asks for is looked for at the start of the buffer: the check is exact for
keys as long as the algorithm says, while after a longer key's block anything may follow.
-/

import Mathlib.Algebra.Order.Ring.Nat
import Mathlib.Algebra.Ring.Parity
import Mathlib.Data.Int.ModEq
import TachyonBoot.Library.Bytes

namespace TachyonBoot.Rsa

open Library List

/-! ### Algorithms and keys -/

/-- The entries of `checksum_algos`. -/
inductive ChecksumAlgo
  | sha1
  | sha256
  | sha384
  | sha512
deriving DecidableEq, Repr

namespace ChecksumAlgo

def checksumLen : ChecksumAlgo → Nat
  | sha1 => 20
  | sha256 => 32
  | sha384 => 48
  | sha512 => 64

/-- `der_prefix`, whose length is `der_len`. -/
def derPrefix : ChecksumAlgo → List UInt8
  | sha1 => [0x30, 0x21, 0x30, 0x09, 0x06, 0x05, 0x2b, 0x0e, 0x03, 0x02, 0x1a, 0x05, 0x00, 0x04,
      0x14]
  | sha256 => [0x30, 0x31, 0x30, 0x0d, 0x06, 0x09, 0x60, 0x86, 0x48, 0x01, 0x65, 0x03, 0x04, 0x02,
      0x01, 0x05, 0x00, 0x04, 0x20]
  | sha384 => [0x30, 0x41, 0x30, 0x0d, 0x06, 0x09, 0x60, 0x86, 0x48, 0x01, 0x65, 0x03, 0x04, 0x02,
      0x02, 0x05, 0x00, 0x04, 0x30]
  | sha512 => [0x30, 0x51, 0x30, 0x0d, 0x06, 0x09, 0x60, 0x86, 0x48, 0x01, 0x65, 0x03, 0x04, 0x02,
      0x03, 0x05, 0x00, 0x04, 0x40]

def derLen (algo : ChecksumAlgo) : Nat := algo.derPrefix.length

theorem checksumLen_pos (algo : ChecksumAlgo) : 0 < algo.checksumLen := by
  cases algo <;> decide

end ChecksumAlgo

/-- The RSA entries of the crypto algorithms. -/
inductive CryptoAlgo
  | rsa2048
  | rsa3072
  | rsa4096
deriving DecidableEq, Repr

def CryptoAlgo.keyLen : CryptoAlgo → Nat
  | rsa2048 => 2048 / 8
  | rsa3072 => 3072 / 8
  | rsa4096 => 4096 / 8

/-- `struct key_prop`, with the numbers that the arrays stand for. -/
structure KeyProp where
  numBits : Int
  modulus : Nat
  publicExponent : Nat

def rsaMaxSigBits : Nat := 4096

def einval : Int := 22

def eacces : Int := 13

/-! ### The check of the padding -/

/-- `memcmp()`. It stops at the first difference, and gets stuck at the end of a buffer. -/
def memcmp : List UInt8 → List UInt8 → Nat → Option UInt32
  | _, _, 0 => some 0
  | first :: left, second :: right, count + 1 =>
    if first = second then memcmp left right count
    else some (first.toUInt32 - second.toUInt32)
  | _, _, _ + 1 => none

/-- What follows an offset of a buffer, if the offset is one of the buffer. -/
def bytesFrom (msg : List UInt8) (offset : Int) : Option (List UInt8) :=
  if 0 ≤ offset ∧ offset ≤ msg.length then some (msg.drop offset.toNat) else none

/-- `rsa_verify_padding()`. A length below zero is a very large one for `memcmp()`. -/
def rsaVerifyPadding (msg : List UInt8) (padLen : Int) (algo : ChecksumAlgo) : Option UInt32 := do
  let first ← msg.head?
  let second ← (msg.drop 1).head?
  let third ← (msg.drop 2).head?
  let ffLen := padLen - algo.derLen - 3
  let run ← memcmp (msg.drop 2) (msg.drop 3) ((ffLen - 1) % 2 ^ 64).toNat
  let separator ← (← bytesFrom msg (2 + ffLen)).head?
  let der ← memcmp (← bytesFrom msg (3 + ffLen)) algo.derPrefix algo.derLen
  return first.toUInt32 ||| (second.toUInt32 ^^^ 0x01) ||| (third.toUInt32 ^^^ 0xff) ||| run |||
    separator.toUInt32 ||| der

def paddingPkcs15Verify (checksum : ChecksumAlgo) (msg : List UInt8) (msgLen : Int)
    (hash : List UInt8) : Option Int := do
  let padLen := msgLen - checksum.checksumLen
  let ret ← rsaVerifyPadding msg padLen checksum
  if ret ≠ 0 then
    return -einval
  else
    let differs ← memcmp (← bytesFrom msg padLen) hash (msgLen - padLen).toNat
    if differs ≠ 0 then return -eacces else return 0

/-- `rsa_verify_key()`, with the modular exponentiation of the device or of the library. A number
of bits below zero is turned down like a signature that is too long. -/
def rsaVerifyKey (rsaModExp : KeyProp → List UInt8 → Except Int (List UInt8))
    (checksum : ChecksumAlgo) (prop : KeyProp) (sig hash : List UInt8) (keyLen : Nat) :
    Option Int :=
  if (sig.length : Int) ≠ prop.numBits.tdiv 8 then
    some (-einval)
  else if rsaMaxSigBits / 8 < sig.length then
    some (-einval)
  else
    match rsaModExp prop sig with
    | .error ret => some ret
    | .ok buf => paddingPkcs15Verify checksum buf keyLen hash

/-! ### What is asked for -/

/-- A number in the given number of bytes, the highest first. -/
def bigEndian (width value : Nat) : List UInt8 := (littleEndian width value).reverse

/-- The number that bytes stand for, the highest first. -/
def ofBigEndian (bytes : List UInt8) : Nat := ofLittleEndian bytes.reverse

/-- The block of PKCS#1 v1.5 for a hash, in the given number of bytes. -/
def pkcs15Block (checksum : ChecksumAlgo) (hash : List UInt8) (length : Nat) : List UInt8 :=
  [0x00, 0x01] ++ (List.replicate (length - (3 + checksum.derLen + checksum.checksumLen)) 0xff ++
    ([0x00] ++ (checksum.derPrefix ++ hash)))

/-- The power of a signature, in as many bytes as the key has. -/
def KeyProp.power (prop : KeyProp) (bytes : Nat) (sig : List UInt8) : List UInt8 :=
  bigEndian bytes (ofBigEndian sig ^ prop.publicExponent % prop.modulus)

/-- The modulus of the key has the given number of bytes, up to its highest bit. -/
structure KeyProp.HasBytes (prop : KeyProp) (bytes : Nat) : Prop where
  numBits : prop.numBits = 8 * bytes
  lower : 2 ^ (8 * bytes - 1) ≤ prop.modulus
  upper : prop.modulus < 2 ^ (8 * bytes)

/-- For all keys of this length a signature is accepted exactly when its length is right and its
power is the block of PKCS#1 v1.5. -/
def AcceptsExactly (crypto : CryptoAlgo) (checksum : ChecksumAlgo) (bytes : Nat) : Prop :=
  ∀ (prop : KeyProp) (rsaModExp : KeyProp → List UInt8 → Except Int (List UInt8)),
    prop.HasBytes bytes →
    (∀ sig : List UInt8, sig.length = bytes → rsaModExp prop sig = .ok (prop.power bytes sig)) →
    ∀ sig hash : List UInt8, hash.length = checksum.checksumLen →
      (rsaVerifyKey rsaModExp checksum prop sig hash crypto.keyLen = some 0 ↔
        sig.length = bytes ∧ prop.power bytes sig = pkcs15Block checksum hash bytes)

/-! ### Comparing -/

variable {bytes msg hash : List UInt8} {byte : UInt8} {count : Nat} {checksum : ChecksumAlgo}

theorem append_isPrefix_iff {front back : List UInt8} :
    front ++ back <+: bytes ↔ front <+: bytes ∧ back <+: bytes.drop front.length := by
  constructor
  · rintro ⟨rest, rfl⟩
    rw [append_assoc, drop_left]
    exact ⟨prefix_append .., prefix_append ..⟩
  · rintro ⟨⟨rest, rfl⟩, after⟩
    rw [drop_left] at after
    exact (prefix_append_right_inj front).mpr after

theorem singleton_isPrefix_iff :
    [byte] <+: bytes ↔ bytes.head? = some byte := by
  cases bytes with
  | nil => simp
  | cons first rest => simp [cons_prefix_cons, eq_comm]

theorem toUInt32_sub_ne_zero {first second : UInt8} (differ : first ≠ second) :
    first.toUInt32 - second.toUInt32 ≠ 0 := by
  intro zero
  have same : first.toUInt32 = second.toUInt32 := by
    rw [← UInt32.sub_add_cancel first.toUInt32 second.toUInt32, zero, UInt32.zero_add]
  exact differ (UInt8.toUInt32_inj.mp same)

theorem memcmp_eq_zero_iff {left right : List UInt8} :
    memcmp left right right.length = some 0 ↔ right <+: left := by
  induction right generalizing left with
  | nil => simp [memcmp]
  | cons second right ih =>
    cases left with
    | nil => simp [memcmp]
    | cons first left =>
      rw [length_cons, memcmp, cons_prefix_cons]
      split_ifs with same
      · rw [ih]
        exact ⟨fun found => ⟨same.symm, found⟩, And.right⟩
      · refine ⟨fun zero => ?_, fun found => absurd found.1.symm same⟩
        exact absurd (Option.some.inj zero) (toUInt32_sub_ne_zero same)

/-- A list that does not differ from itself without its first byte repeats that byte. -/
theorem memcmp_tail_eq_zero_iff (first : bytes.head? = some byte) :
    memcmp bytes (bytes.drop 1) count = some 0 ↔ List.replicate (count + 1) byte <+: bytes := by
  induction count generalizing bytes with
  | zero =>
    rw [memcmp, replicate_one, singleton_isPrefix_iff, first]
    exact iff_of_true rfl rfl
  | succ count ih =>
    match bytes, first with
    | [_], _ => simp [memcmp, replicate_succ]
    | head :: second :: rest, first =>
      obtain rfl : head = byte := Option.some.inj first
      rw [drop_one, tail_cons, memcmp, replicate_succ, cons_prefix_cons]
      split_ifs with same
      · subst same
        have later := @ih (head :: rest) rfl
        rw [drop_one, tail_cons] at later
        rw [later]
        exact ⟨fun found => ⟨rfl, found⟩, And.right⟩
      · refine ⟨fun zero => ?_, fun found => ?_⟩
        · exact absurd (Option.some.inj zero) (toUInt32_sub_ne_zero same)
        · exact absurd (cons_prefix_cons.mp found.2).1 same

theorem bytesFrom_eq_some_iff {offset : Nat} :
    bytesFrom msg offset = some bytes ↔ offset ≤ msg.length ∧ msg.drop offset = bytes := by
  rw [bytesFrom]
  split_ifs with inside
  · simp only [Int.toNat_natCast, Option.some.injEq]
    exact ⟨fun same => ⟨by omega, same⟩, And.right⟩
  · refine ⟨nofun, fun found => ?_⟩
    omega

theorem head?_le_length {offset : Nat} (found : (msg.drop offset).head? = some byte) :
    offset + 1 ≤ msg.length := by
  rw [head?_drop] at found
  exact (List.getElem?_eq_some_iff.mp found).1

theorem or_eq_zero_iff {left right : UInt32} : left ||| right = 0 ↔ left = 0 ∧ right = 0 := by
  simp

theorem toUInt32_xor_eq_zero_iff {expected : UInt8} :
    byte.toUInt32 ^^^ expected.toUInt32 = 0 ↔ byte = expected := by
  rw [UInt32.xor_eq_zero_iff, UInt8.toUInt32_inj]

/-! ### The pieces make up the block -/

/-- The check of the padding, piece by piece. There is at least one byte `0xff`. -/
theorem rsaVerifyPadding_eq_zero_iff {algo : ChecksumAlgo} (small : count < 2 ^ 63) :
    rsaVerifyPadding msg ((count + 1 : Nat) + algo.derLen + 3) algo = some 0 ↔
      [0x00] <+: msg ∧ [0x01] <+: msg.drop 1 ∧ List.replicate (count + 1) 0xff <+: msg.drop 2 ∧
        [0x00] <+: msg.drop (2 + (count + 1)) ∧ algo.derPrefix <+: msg.drop (3 + (count + 1)) := by
  have ffLen : ((count + 1 : Nat) : Int) + algo.derLen + 3 - algo.derLen - 3 =
      (count + 1 : Nat) := by omega
  have amount : ((((count + 1 : Nat) : Int) - 1) % 2 ^ 64).toNat = count := by omega
  rw [rsaVerifyPadding]
  simp only [ffLen, amount, Option.bind_eq_bind, Option.bind_eq_some_iff]
  constructor
  · rintro ⟨first, head, second, next, third, ones, run, compared, rest, located, separator, zero,
      tail, tailLocated, der, derCompared, result⟩
    simp only [Option.pure_def, Option.some.injEq, or_eq_zero_iff] at result
    obtain ⟨⟨⟨⟨⟨firstZero, secondOne⟩, thirdOnes⟩, rfl⟩, separatorZero⟩, rfl⟩ := result
    obtain rfl : first = 0x00 := UInt8.toUInt32_inj.mp firstZero
    obtain rfl : second = 0x01 := toUInt32_xor_eq_zero_iff.mp secondOne
    obtain rfl : third = 0xff := toUInt32_xor_eq_zero_iff.mp thirdOnes
    obtain rfl : separator = 0x00 := UInt8.toUInt32_inj.mp separatorZero
    rw [show (2 : Int) + (count + 1 : Nat) = (2 + (count + 1) : Nat) by omega,
      bytesFrom_eq_some_iff] at located
    rw [show (3 : Int) + (count + 1 : Nat) = (3 + (count + 1) : Nat) by omega,
      bytesFrom_eq_some_iff] at tailLocated
    rw [← located.2] at zero
    rw [← tailLocated.2] at derCompared
    rw [show msg.drop 3 = (msg.drop 2).drop 1 by rw [drop_drop],
      memcmp_tail_eq_zero_iff ones] at compared
    exact ⟨singleton_isPrefix_iff.mpr head, singleton_isPrefix_iff.mpr next, compared,
      singleton_isPrefix_iff.mpr zero, memcmp_eq_zero_iff.mp derCompared⟩
  · rintro ⟨head, next, ones, zero, der⟩
    rw [singleton_isPrefix_iff] at head next zero
    have third : (msg.drop 2).head? = some 0xff :=
      singleton_isPrefix_iff.mp (List.IsPrefix.trans (by simp [replicate_succ]) ones)
    have length := head?_le_length zero
    refine ⟨_, head, _, next, _, third, 0, ?_, _, ?_, _, zero, msg.drop (3 + (count + 1)), ?_, 0,
      memcmp_eq_zero_iff.mpr der, rfl⟩
    · rwa [show msg.drop 3 = (msg.drop 2).drop 1 by rw [drop_drop],
        memcmp_tail_eq_zero_iff third]
    · rw [show (2 : Int) + (count + 1 : Nat) = (2 + (count + 1) : Nat) by omega,
        bytesFrom_eq_some_iff]
      exact ⟨by omega, rfl⟩
    · rw [show (3 : Int) + (count + 1 : Nat) = (3 + (count + 1) : Nat) by omega,
        bytesFrom_eq_some_iff]
      exact ⟨by omega, rfl⟩

theorem pkcs15Block_isPrefix_iff :
    pkcs15Block checksum hash (count + (3 + checksum.derLen + checksum.checksumLen)) <+: msg ↔
      ([0x00] <+: msg ∧ [0x01] <+: msg.drop 1 ∧ List.replicate count 0xff <+: msg.drop 2 ∧
        [0x00] <+: msg.drop (2 + count) ∧ checksum.derPrefix <+: msg.drop (3 + count)) ∧
      hash <+: msg.drop (3 + count + checksum.derLen) := by
  rw [pkcs15Block, Nat.add_sub_cancel, append_isPrefix_iff, append_isPrefix_iff,
    append_isPrefix_iff, append_isPrefix_iff, ← singleton_append, append_isPrefix_iff]
  simp only [length_append, length_cons, length_nil, length_replicate,
    drop_drop, ChecksumAlgo.derLen, and_assoc, Nat.zero_add, Nat.reduceAdd]
  rw [show 2 + count + 1 = 3 + count by omega]

/-- With room for a byte `0xff`, a buffer is accepted when it starts with the block. -/
theorem paddingPkcs15Verify_eq_zero_iff {length : Nat}
    (hashLength : hash.length = checksum.checksumLen)
    (room : 4 + checksum.derLen + checksum.checksumLen ≤ length) (small : length < 2 ^ 63) :
    paddingPkcs15Verify checksum msg length hash = some 0 ↔
      pkcs15Block checksum hash length <+: msg := by
  obtain ⟨count, rfl⟩ :
      ∃ count, length = count + 1 + (3 + checksum.derLen + checksum.checksumLen) :=
    ⟨length - (4 + checksum.derLen + checksum.checksumLen), by omega⟩
  have padLen : ((count + 1 + (3 + checksum.derLen + checksum.checksumLen) : Nat) : Int) -
      checksum.checksumLen = (count + 1 : Nat) + checksum.derLen + 3 := by omega
  have place : ((count + 1 : Nat) : Int) + checksum.derLen + 3 =
      (3 + (count + 1) + checksum.derLen : Nat) := by omega
  have hashLen : (((count + 1 + (3 + checksum.derLen + checksum.checksumLen) : Nat) : Int) -
      ((count + 1 : Nat) + checksum.derLen + 3)).toNat = hash.length := by omega
  rw [pkcs15Block_isPrefix_iff, ← rsaVerifyPadding_eq_zero_iff (by omega), paddingPkcs15Verify,
    padLen, hashLen]
  cases checked : rsaVerifyPadding msg ((count + 1 : Nat) + checksum.derLen + 3) checksum with
  | none => simp
  | some ret =>
    simp only [Option.bind_eq_bind, Option.bind_some, Option.some.injEq]
    split_ifs with padding
    · exact iff_of_false (by decide) fun both => padding both.1
    · rw [not_not.mp padding, place]
      simp only [Option.bind_eq_some_iff, bytesFrom_eq_some_iff, true_and]
      constructor
      · rintro ⟨rest, ⟨-, rfl⟩, differs, compared, result⟩
        split_ifs at result with same
        · exact absurd result (by decide)
        · rw [not_not.mp same] at compared
          exact memcmp_eq_zero_iff.mp compared
      · intro found
        have inside := found.length_le
        have positive := checksum.checksumLen_pos
        rw [length_drop] at inside
        exact ⟨_, ⟨by omega, rfl⟩, 0, memcmp_eq_zero_iff.mpr found, rfl⟩

theorem CryptoAlgo.room (crypto : CryptoAlgo) (checksum : ChecksumAlgo) :
    4 + checksum.derLen + checksum.checksumLen ≤ crypto.keyLen ∧ crypto.keyLen ≤ 512 := by
  cases crypto <;> cases checksum <;> decide

theorem length_pkcs15Block {length : Nat} (hashLength : hash.length = checksum.checksumLen) :
    (pkcs15Block checksum hash length).length =
      max length (3 + checksum.derLen + checksum.checksumLen) := by
  simp only [pkcs15Block, length_append, length_cons, length_nil,
    length_replicate, hashLength, ChecksumAlgo.derLen]
  omega

theorem pkcs15Block_not_isPrefix {short long : Nat}
    (room : 3 + checksum.derLen + checksum.checksumLen ≤ short) (longer : short < long) :
    ¬pkcs15Block checksum hash short <+: pkcs15Block checksum hash long := by
  obtain ⟨count, rfl⟩ := Nat.exists_eq_add_of_le' room
  intro found
  -- where the short one has its `0x00` the long one still has `0xff`
  have zero := (pkcs15Block_isPrefix_iff.mp found).1.2.2.2.1
  have ones : (pkcs15Block checksum hash long)[2 + count]? = some 0xff := by
    rw [pkcs15Block, getElem?_append_right (Nat.le_add_right 2 count),
      getElem?_append_left (by simp; omega), getElem?_replicate, if_pos (by simp; omega)]
  rw [singleton_isPrefix_iff, head?_drop, ones] at zero
  exact absurd zero (by decide)

theorem length_bigEndian (width value : Nat) : (bigEndian width value).length = width := by
  rw [bigEndian, length_reverse, length_littleEndian]

theorem ofBigEndian_lt (bytes : List UInt8) : ofBigEndian bytes < 256 ^ bytes.length := by
  have bound := ofLittleEndian_lt bytes.reverse
  rwa [length_reverse] at bound

theorem bigEndian_ofBigEndian (bytes : List UInt8) :
    bigEndian bytes.length (ofBigEndian bytes) = bytes := by
  have back := littleEndian_ofLittleEndian bytes.reverse
  rw [length_reverse] at back
  rw [bigEndian, ofBigEndian, back, reverse_reverse]

theorem ofBigEndian_bigEndian {width value : Nat} (small : value < 256 ^ width) :
    ofBigEndian (bigEndian width value) = value := by
  rw [bigEndian, ofBigEndian, reverse_reverse, ofLittleEndian_littleEndian,
    Nat.mod_eq_of_lt small]

/-! ### For which keys the check is exact -/

section Exactness

variable {crypto : CryptoAlgo} {checksum : ChecksumAlgo} {prop : KeyProp} {bytes : Nat}
  {rsaModExp : KeyProp → List UInt8 → Except Int (List UInt8)} {sig hash : List UInt8}

theorem rsaVerifyKey_eq_zero_iff (sized : prop.HasBytes bytes)
    (computes : sig.length = bytes → rsaModExp prop sig = .ok (prop.power bytes sig))
    (hashLength : hash.length = checksum.checksumLen) :
    rsaVerifyKey rsaModExp checksum prop sig hash crypto.keyLen = some 0 ↔
      sig.length = bytes ∧ bytes ≤ 512 ∧
        pkcs15Block checksum hash crypto.keyLen <+: prop.power bytes sig := by
  obtain ⟨room, short⟩ := crypto.room checksum
  have bitsOfBytes : prop.numBits.tdiv 8 = bytes := by
    rw [sized.numBits, Int.mul_tdiv_cancel_left _ (by decide)]
  rw [rsaVerifyKey, bitsOfBytes, rsaMaxSigBits]
  split_ifs with otherLength long
  · exact iff_of_false (by decide) fun all => otherLength (by rw [all.1])
  · exact iff_of_false (by decide) fun all => by omega
  · have length : sig.length = bytes := Int.ofNat_inj.mp (not_not.mp otherLength)
    rw [computes length]
    dsimp only
    rw [paddingPkcs15Verify_eq_zero_iff hashLength room (by omega)]
    exact ⟨fun found => ⟨length, by omega, found⟩, fun all => all.2.2⟩

theorem acceptsExactly_keyLen (crypto : CryptoAlgo) (checksum : ChecksumAlgo) :
    AcceptsExactly crypto checksum crypto.keyLen := by
  intro prop rsaModExp sized computes sig hash hashLength
  obtain ⟨room, short⟩ := crypto.room checksum
  have blockLength : (pkcs15Block checksum hash crypto.keyLen).length = crypto.keyLen := by
    rw [length_pkcs15Block hashLength]
    omega
  rw [rsaVerifyKey_eq_zero_iff sized (computes sig) hashLength]
  constructor
  · rintro ⟨length, -, found⟩
    refine ⟨length, (found.eq_of_length ?_).symm⟩
    rw [blockLength, KeyProp.power, length_bigEndian]
  · rintro ⟨length, same⟩
    exact ⟨length, short, same ▸ prefix_rfl⟩

/-- With a key that is too short for any block nothing is accepted, nor should it be. -/
theorem acceptsExactly_of_short (tooShort : bytes < 3 + checksum.derLen + checksum.checksumLen) :
    AcceptsExactly crypto checksum bytes := by
  intro prop rsaModExp sized computes sig hash hashLength
  obtain ⟨room, -⟩ := crypto.room checksum
  rw [rsaVerifyKey_eq_zero_iff sized (computes sig) hashLength]
  constructor
  · rintro ⟨-, -, found⟩
    have length := found.length_le
    rw [length_pkcs15Block hashLength, KeyProp.power, length_bigEndian] at length
    omega
  · rintro ⟨-, same⟩
    have length := congrArg List.length same
    rw [length_pkcs15Block hashLength, KeyProp.power, length_bigEndian] at length
    omega

end Exactness

/-! ### A key for any block -/

/-- A key for which a signature of the block is easily found: its exponent is odd, and modulo its
modulus the block is the negative of a power of two with that exponent. -/
def keyFor (block : List UInt8) : KeyProp where
  numBits := 8 * block.length
  modulus := ofBigEndian block + 2 ^ (8 * block.length - 1)
  publicExponent := 8 * block.length - 1

/-- The signature of the block. -/
def signatureFor (block : List UInt8) : List UInt8 :=
  bigEndian block.length ((keyFor block).modulus - 2)

/-- An exact modular exponentiation. -/
def exactModExp (prop : KeyProp) (sig : List UInt8) : Except Int (List UInt8) :=
  .ok (prop.power sig.length sig)

theorem ofBigEndian_zero_cons (rest : List UInt8) :
    ofBigEndian (0x00 :: rest) = ofBigEndian rest := by
  rw [ofBigEndian, ofBigEndian, reverse_cons, ofLittleEndian, ofLittleEndian,
    foldr_append]
  rfl

/-- With an odd exponent the power of `-2` is the negative of the power of `2`. -/
theorem sub_two_pow_mod {value exponent : Nat} (odd : Odd exponent) :
    (value + 2 ^ exponent - 2) ^ exponent % (value + 2 ^ exponent) = value := by
  have large : 2 ≤ 2 ^ exponent := by
    refine Nat.le_self_pow ?_ 2
    rintro rfl
    exact absurd odd (by decide)
  have congruent : ((value + 2 ^ exponent - 2 : Nat) : Int) ^ exponent ≡ value
      [ZMOD (value + 2 ^ exponent : Nat)] := by
    have base : ((value + 2 ^ exponent - 2 : Nat) : Int) ≡ -2
        [ZMOD (value + 2 ^ exponent : Nat)] := by
      refine Int.modEq_iff_dvd.mpr ⟨-1, ?_⟩
      rw [Int.natCast_sub (by omega)]
      omega
    have negative : -(2 : Int) ^ exponent ≡ value [ZMOD (value + 2 ^ exponent : Nat)] := by
      refine Int.modEq_iff_dvd.mpr ⟨1, ?_⟩
      push_cast
      omega
    have power := base.pow exponent
    rw [odd.neg_pow (2 : Int)] at power
    exact power.trans negative
  exact Nat.mod_eq_of_modEq (Int.natCast_modEq_iff.mp (by rwa [Int.natCast_pow])) (by omega)

section KeyFor

variable {rest : List UInt8}

theorem keyFor_hasBytes : (keyFor (0x00 :: rest)).HasBytes (rest.length + 1) := by
  have small := ofBigEndian_lt rest
  have shape : 8 * (rest.length + 1) - 1 = 8 * rest.length + 7 := by omega
  have power : 256 ^ rest.length = 2 ^ (8 * rest.length) := by rw [Nat.pow_mul]
  refine ⟨rfl, Nat.le_add_left .., ?_⟩
  rw [keyFor, ofBigEndian_zero_cons, length_cons, shape,
    show 8 * (rest.length + 1) = 8 * rest.length + 8 by omega, Nat.pow_add, Nat.pow_add]
  rw [power] at small
  generalize 2 ^ (8 * rest.length) = unit at small
  dsimp only
  omega

theorem length_signatureFor (block : List UInt8) :
    (signatureFor block).length = block.length :=
  length_bigEndian ..

theorem power_signatureFor :
    (keyFor (0x00 :: rest)).power (rest.length + 1) (signatureFor (0x00 :: rest)) =
      0x00 :: rest := by
  have upper := (@keyFor_hasBytes rest).upper
  have number : ofBigEndian (signatureFor (0x00 :: rest)) =
      (keyFor (0x00 :: rest)).modulus - 2 := by
    refine ofBigEndian_bigEndian ?_
    rw [length_cons, show 256 = 2 ^ 8 from rfl, ← Nat.pow_mul]
    omega
  have odd : Odd (8 * (rest.length + 1) - 1) := ⟨4 * rest.length + 3, by omega⟩
  have block : ofBigEndian (signatureFor (0x00 :: rest)) ^ (keyFor (0x00 :: rest)).publicExponent %
      (keyFor (0x00 :: rest)).modulus = ofBigEndian (0x00 :: rest) := by
    rw [number]
    exact sub_two_pow_mod odd
  rw [KeyProp.power, block]
  exact bigEndian_ofBigEndian (0x00 :: rest)

end KeyFor

theorem AcceptsExactly.block {crypto : CryptoAlgo} {bytes : Nat}
    (exactly : AcceptsExactly crypto checksum bytes)
    (room : 3 + checksum.derLen + checksum.checksumLen ≤ bytes)
    (hashLength : hash.length = checksum.checksumLen) :
    bytes ≤ 512 ∧
      pkcs15Block checksum hash crypto.keyLen <+: pkcs15Block checksum hash bytes := by
  obtain ⟨rest, block⟩ : ∃ rest, pkcs15Block checksum hash bytes = 0x00 :: rest := ⟨_, rfl⟩
  have length : bytes = rest.length + 1 := by
    have length := @length_pkcs15Block hash checksum bytes hashLength
    rw [block, length_cons] at length
    omega
  have computes (sig : List UInt8) (sigLength : sig.length = bytes) :
      exactModExp (keyFor (0x00 :: rest)) sig = .ok ((keyFor (0x00 :: rest)).power bytes sig) := by
    rw [exactModExp, sigLength]
  have sized : (keyFor (0x00 :: rest)).HasBytes bytes := length ▸ keyFor_hasBytes
  have power : (keyFor (0x00 :: rest)).power bytes (signatureFor (0x00 :: rest)) =
      0x00 :: rest := by
    rw [length, power_signatureFor]
  have accepted := (exactly _ _ sized computes (signatureFor (0x00 :: rest)) hash hashLength).mpr
    ⟨by rw [length_signatureFor, length, length_cons], by rw [power, block]⟩
  rw [rsaVerifyKey_eq_zero_iff sized (computes _) hashLength, power] at accepted
  exact ⟨accepted.2.1, block ▸ accepted.2.2⟩

/-- The check of a signature is exact for keys of a given length exactly when the algorithm is
one for keys of this length, or they are too short for any block. -/
theorem acceptsExactly_iff (crypto : CryptoAlgo) (checksum : ChecksumAlgo) (bytes : Nat) :
    AcceptsExactly crypto checksum bytes ↔
      bytes = crypto.keyLen ∨ bytes < 3 + checksum.derLen + checksum.checksumLen := by
  constructor
  · intro exactly
    by_contra! other
    obtain ⟨differs, room⟩ := other
    obtain ⟨keyRoom, -⟩ := crypto.room checksum
    have hashLength : (List.replicate checksum.checksumLen (0x00 : UInt8)).length =
        checksum.checksumLen := length_replicate
    obtain ⟨-, found⟩ := exactly.block room hashLength
    rcases Nat.lt_or_gt_of_ne differs with shorter | longer
    · have length := found.length_le
      rw [length_pkcs15Block hashLength, length_pkcs15Block hashLength] at length
      omega
    · exact pkcs15Block_not_isPrefix (by omega) longer found
  · rintro (rfl | tooShort)
    · exact acceptsExactly_keyLen crypto checksum
    · exact acceptsExactly_of_short tooShort

/-! ### A key that is longer than the algorithm says -/

/-- A hash. -/
def sampleHash : List UInt8 := List.replicate 32 0x5a

/-- A block for keys of 2048 bits, with 256 other bytes after it. -/
def looseBlock : List UInt8 :=
  pkcs15Block .sha256 sampleHash 256 ++ List.replicate 256 0x01

/-- With a key of 4096 bits and the algorithm `sha256,rsa2048`, a signature is accepted whose
power is not a block of PKCS#1 v1.5. -/
theorem looseBlock_accepted :
    (keyFor looseBlock).HasBytes 512 ∧
      rsaVerifyKey exactModExp .sha256 (keyFor looseBlock) (signatureFor looseBlock) sampleHash
        CryptoAlgo.rsa2048.keyLen = some 0 ∧
      (keyFor looseBlock).power 512 (signatureFor looseBlock) ≠
        pkcs15Block .sha256 sampleHash 512 := by
  obtain ⟨rest, block⟩ : ∃ rest, looseBlock = 0x00 :: rest := ⟨_, rfl⟩
  have length : rest.length + 1 = 512 := by
    rw [← length_cons, ← block, looseBlock, length_append, length_pkcs15Block rfl,
      length_replicate]
    decide
  have sized : (keyFor looseBlock).HasBytes 512 := by
    rw [block, ← length]
    exact keyFor_hasBytes
  have power : (keyFor looseBlock).power 512 (signatureFor looseBlock) = looseBlock := by
    rw [block, ← length]
    exact power_signatureFor
  have sigLength : (signatureFor looseBlock).length = 512 := by
    rw [length_signatureFor, block, length_cons, length]
  refine ⟨sized, ?_, ?_⟩
  · rw [rsaVerifyKey_eq_zero_iff sized (fun _ => by rw [exactModExp, sigLength]) rfl, power]
    exact ⟨sigLength, le_rfl, prefix_append ..⟩
  · rw [power]
    intro same
    have found : pkcs15Block .sha256 sampleHash 256 <+: pkcs15Block .sha256 sampleHash 512 :=
      same ▸ prefix_append ..
    exact pkcs15Block_not_isPrefix (by decide) (by decide) found

end TachyonBoot.Rsa
