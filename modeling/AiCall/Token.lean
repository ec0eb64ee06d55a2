import Mathlib.Data.List.GetD
import AiCall.Kit.CString
import AiCall.Kit.Hex

/-! The token of a call: `ARTCGenerateToken` of `esp32-s3/main/artc_helper.c` and `generate_token`
of `jl-ac791/artc_aicall_demo.c`, which build it in the same way. -/

namespace AiCall

open Kit

/-! ### The bytes that are hashed -/

/-- The loop that counts the digits of the timestamp. -/
def countDigits (contentSize : Nat) (tmp : Int) : Nat :=
  if 0 < tmp.tdiv 10 then countDigits (contentSize + 1) (tmp.tdiv 10) else contentSize + 1
termination_by tmp.toNat
decreasing_by
  have hp : 0 < tmp := by
    by_contra hn
    have hq := Int.tdiv_nonneg (show 0 ≤ -tmp by omega) (show (0 : Int) ≤ 10 by decide)
    rw [Int.neg_tdiv] at hq
    omega
  rw [Int.tdiv_eq_ediv_of_nonneg (Int.le_of_lt hp)]
  omega

/-- The size of the buffer that the fields are formatted to. -/
def contentSize (appId appKey channelId userId : CString) (timestamp : Int32) : Nat :=
  countDigits (appId.length + appKey.length + channelId.length + userId.length) timestamp.toInt + 1

/-- What `"%s%s%s%s%d"` gives. -/
def content (appId appKey channelId userId : CString) (timestamp : Int32) : CString :=
  appId ++ appKey ++ channelId ++ userId ++ decimal timestamp.toInt

/-- The `len` bytes of `buffer` that are hashed; none where they go past its end. -/
def hashed (buffer : (n : Nat) → CharArray n) (appId appKey channelId userId : CString)
    (timestamp : Int32) : Option (List UInt8) :=
  let text := content appId appKey channelId userId timestamp
  ((buffer (contentSize appId appKey channelId userId timestamp)).snprintf text).read text.length

/-! ### From the digest to the token -/

def hexChars : List UInt8 := [48, 49, 50, 51, 52, 53, 54, 55, 56, 57, 97, 98, 99, 100, 101, 102]

/-- The `int` that a `char` is promoted to; plain `char` is signed on some targets. -/
def promote (signed : Bool) (c : UInt8) : BitVec 32 :=
  if signed then c.toBitVec.signExtend 32 else c.toBitVec.zeroExtend 32

def hexStep (signed : Bool) (sha256Out : CharArray 32) (buffer : CharArray 65) (i : Nat) :
    CharArray 65 :=
  let c := promote signed (sha256Out.get i)
  (buffer.set (i * 2) (hexChars.getD (c.sshiftRight 4 &&& 0xf).toNat 0)).set (i * 2 + 1)
    (hexChars.getD (c &&& 0xf).toNat 0)

/-- The code under `ToHex`. -/
def toHex (signed : Bool) (sha256Out : CharArray 32) (buffer : CharArray 65) : CharArray 65 :=
  ((List.range 32).foldl (hexStep signed sha256Out) buffer).set (32 * 2) 0

/-- `ARTCGenerateToken`.  The call has no result where it reads past its buffer, and returns NULL
where it is given a NULL; `malloc k` is what its `k`-th `malloc` finds in memory. -/
def Esp32.artcGenerateToken (malloc : Nat → (n : Nat) → CharArray n) (signed : Bool)
    (sha256 : List UInt8 → CharArray 32) (appId appKey channelId userId : Ptr CString)
    (timestamp : Int32) : Option (Ptr (CharArray 65)) :=
  match appId, appKey, channelId, userId with
  | some appId, some appKey, some channelId, some userId => do
    let bytes ← hashed (malloc 0) appId appKey channelId userId timestamp
    return some (toHex signed (sha256 bytes) (malloc 1 65))
  | _, _, _, _ => some none

/-- `generate_token`, which writes to the array of its caller. -/
def Jl.generateToken (malloc : (n : Nat) → CharArray n) (signed : Bool)
    (sha256 : List UInt8 → CharArray 32) (appId appKey channelId userId : Ptr CString)
    (timestamp : Int32) (token : CharArray 65) : Option (CharArray 65) :=
  match appId, appKey, channelId, userId with
  | some appId, some appKey, some channelId, some userId => do
    let bytes ← hashed malloc appId appKey channelId userId timestamp
    return toHex signed (sha256 bytes) token
  | _, _, _, _ => some token

/-! ### The buffer holds what is formatted -/

theorem countDigits_of_nonneg (c k : Nat) : countDigits c k = c + (digits k).length := by
  induction k using Nat.strongRecOn generalizing c with
  | ind k ih =>
    rw [countDigits]
    have hd : (k : Int).tdiv 10 = ((k / 10 : Nat) : Int) := by
      rw [Int.tdiv_eq_ediv_of_nonneg (Int.natCast_nonneg k)]
      omega
    rw [hd]
    split
    · have hk : 10 ≤ k := by omega
      rw [ih (k / 10) (by omega), length_digits_of_le hk]
      omega
    · have hk : k < 10 := by omega
      rw [length_digits_of_lt hk]

theorem length_content_lt {timestamp : Int32} (ht : 0 ≤ timestamp.toInt)
    (appId appKey channelId userId : CString) :
    (content appId appKey channelId userId timestamp).length <
      contentSize appId appKey channelId userId timestamp := by
  obtain ⟨k, hk⟩ := Int.eq_ofNat_of_zero_le ht
  rw [content, contentSize, hk, countDigits_of_nonneg]
  simp only [CString.length_append]
  exact Nat.lt_succ_self _

/-- With a timestamp that is not negative the fields are hashed whole. -/
theorem hashed_of_nonneg {timestamp : Int32} (ht : 0 ≤ timestamp.toInt)
    (buffer : (n : Nat) → CharArray n) (appId appKey channelId userId : CString) :
    hashed buffer appId appKey channelId userId timestamp =
      some (content appId appKey channelId userId timestamp).bytes :=
  CharArray.read_snprintf _ (length_content_lt ht appId appKey channelId userId)

/-- The loop ends at once where the timestamp is negative. -/
theorem countDigits_of_neg (c : Nat) {tmp : Int} (h : tmp < 0) : countDigits c tmp = c + 1 := by
  have hq := Int.tdiv_nonneg (show 0 ≤ -tmp by omega) (show (0 : Int) ≤ 10 by decide)
  rw [Int.neg_tdiv] at hq
  rw [countDigits, if_neg (by omega)]

/-- With a negative timestamp the text does not fit in. -/
theorem contentSize_le_of_neg {timestamp : Int32} (ht : timestamp.toInt < 0)
    (appId appKey channelId userId : CString) :
    contentSize appId appKey channelId userId timestamp ≤
      (content appId appKey channelId userId timestamp).length := by
  have hd := two_le_length_decimal ht
  rw [content, contentSize, countDigits_of_neg _ ht]
  simp only [CString.length_append]
  omega

/-- The bytes that are hashed lie in the buffer, and they are all that was to be formatted. -/
structure HashesWhole (buffer : (n : Nat) → CharArray n) (appId appKey channelId userId : CString)
    (timestamp : Int32) : Prop where
  fits : (content appId appKey channelId userId timestamp).length <
    contentSize appId appKey channelId userId timestamp
  whole : hashed buffer appId appKey channelId userId timestamp =
    some (content appId appKey channelId userId timestamp).bytes

section Calls

variable (malloc : Nat → (n : Nat) → CharArray n) (malloc' : (n : Nat) → CharArray n)
  (appId appKey channelId userId : CString) (timestamp : Int32)

/-- Both functions hash the text in full if and only if the timestamp is not negative. -/
theorem hashes_whole_iff : (HashesWhole (malloc 0) appId appKey channelId userId timestamp ∧
    HashesWhole malloc' appId appKey channelId userId timestamp) ↔ 0 ≤ timestamp.toInt := by
  constructor
  · rintro ⟨h, -⟩
    by_contra hneg
    have hle := contentSize_le_of_neg (Int.not_le.mp hneg) appId appKey channelId userId
    exact absurd h.fits (Nat.not_lt.mpr hle)
  · intro ht
    have hfits := length_content_lt ht appId appKey channelId userId
    exact ⟨⟨hfits, hashed_of_nonneg ht ..⟩, hfits, hashed_of_nonneg ht ..⟩

/-- The timestamp of a call 2147483648 seconds after the epoch, in January 2038. -/
theorem overflow_not_whole : ¬ ∀ (buffer : (n : Nat) → CharArray n)
    (appId appKey channelId userId : CString) (timestamp : Int32),
    HashesWhole buffer appId appKey channelId userId timestamp := by
  intro h
  have hfits := (h .zero ⟨[97], by decide⟩ ⟨[107], by decide⟩ ⟨[99], by decide⟩ ⟨[117], by decide⟩
    (-2147397248)).fits
  exact absurd hfits (Nat.not_lt.mpr (contentSize_le_of_neg (by decide) _ _ _ _))

end Calls

/-! ### The characters of the token -/

def hexByte (c : UInt8) : List UInt8 :=
  [hexChars.getD (c.toNat / 16) 0, hexChars.getD (c.toNat % 16) 0]

/-- A digest in hexadecimal. -/
def hexText (sha256Out : CharArray 32) : List UInt8 := sha256Out.bytes.flatMap hexByte

theorem length_flatMap_hexByte (cs : List UInt8) : (cs.flatMap hexByte).length = cs.length * 2 := by
  induction cs with
  | nil => rfl
  | cons c cs ih =>
    rw [List.flatMap_cons, List.length_append, ih, List.length_cons, Nat.succ_mul, Nat.add_comm]
    rfl

theorem hexByte_ne_zero {c b : UInt8} (h : b ∈ hexByte c) : b ≠ 0 := by
  have hh : ∀ k < 16, hexChars.getD k 0 ≠ 0 := by decide
  have hc : c.toNat < 256 := c.toNat_lt
  rcases List.mem_cons.mp h with rfl | h
  · exact hh _ (by omega)
  · rw [List.mem_singleton.mp h]
    exact hh _ (Nat.mod_lt _ (by decide))

theorem promote_high (signed : Bool) (c : UInt8) :
    ((promote signed c).sshiftRight 4 &&& 0xf).toNat = c.toNat / 16 := by
  have h : ∀ (s : Bool) (b : BitVec 8),
      ((promote s ⟨b⟩).sshiftRight 4 &&& 0xf).toNat = b.toNat / 16 := by decide +kernel
  exact h signed c.toBitVec

theorem promote_low (signed : Bool) (c : UInt8) :
    (promote signed c &&& 0xf).toNat = c.toNat % 16 := by
  have h : ∀ (s : Bool) (b : BitVec 8), (promote s ⟨b⟩ &&& 0xf).toNat = b.toNat % 16 := by
    decide +kernel
  exact h signed c.toBitVec

section ToHex

variable (signed : Bool) (sha256Out : CharArray 32) (buffer : CharArray 65)

/-- A step of the loop replaces the next two characters. -/
theorem bytes_hexStep {buffer : CharArray 65} {done rest : List UInt8} {x y : UInt8} {i : Nat}
    (hl : done.length = i * 2) (hb : buffer.bytes = done ++ x :: y :: rest) :
    (hexStep signed sha256Out buffer i).bytes = done ++ hexByte (sha256Out.get i) ++ rest := by
  have h1 : done.length ≤ done.length + 1 := Nat.le_add_right _ 1
  simp only [hexStep, CharArray.bytes_set]
  rw [promote_high, promote_low, hb, ← hl, List.set_append_right _ _ (Nat.le_refl _), Nat.sub_self,
    List.set_append_right _ _ h1, Nat.add_sub_cancel_left, List.append_assoc]
  rfl

/-- The invariant of the loop: the bytes before `i` have been written, and no others. -/
theorem bytes_hexLoop {i : Nat} (hi : i ≤ 32) :
    ((List.range i).foldl (hexStep signed sha256Out) buffer).bytes =
      (sha256Out.bytes.take i).flatMap hexByte ++ buffer.bytes.drop (i * 2) := by
  induction i with
  | zero => rfl
  | succ i ih =>
    have hlt : i < sha256Out.bytes.length := by
      rw [sha256Out.size]
      omega
    have hget : sha256Out.get i = sha256Out.bytes[i] := List.getD_eq_getElem _ _ hlt
    have hlen : ((sha256Out.bytes.take i).flatMap hexByte).length = i * 2 := by
      rw [length_flatMap_hexByte, List.length_take, Nat.min_eq_left (Nat.le_of_lt hlt)]
    obtain ⟨x, y, hd⟩ : ∃ x y, buffer.bytes.drop (i * 2) =
        x :: y :: buffer.bytes.drop ((i + 1) * 2) := by
      have hs := buffer.size
      refine ⟨buffer.bytes[i * 2], buffer.bytes[i * 2 + 1], ?_⟩
      rw [List.drop_eq_getElem_cons (by omega), List.drop_eq_getElem_cons (by omega)]
      congr 3
      omega
    rw [List.range_succ, List.foldl_append, List.foldl_cons, List.foldl_nil,
      bytes_hexStep signed sha256Out hlen ((ih (by omega)).trans (congrArg _ hd)), hget,
      List.take_succ_eq_append_getElem hlt, List.flatMap_append, List.flatMap_singleton]

theorem length_hexText : (hexText sha256Out).length = 64 := by
  rw [hexText, length_flatMap_hexByte, sha256Out.size]

theorem bytes_toHex : (toHex signed sha256Out buffer).bytes = hexText sha256Out ++ [0] := by
  have hd : ∃ x, buffer.bytes.drop (32 * 2) = [x] := by
    rw [← List.length_eq_one_iff, List.length_drop, buffer.size]
  obtain ⟨x, hx⟩ := hd
  have ht : sha256Out.bytes.take 32 = sha256Out.bytes :=
    List.take_of_length_le (Nat.le_of_eq sha256Out.size)
  have hl := length_hexText sha256Out
  rw [hexText] at hl ⊢
  rw [toHex, CharArray.bytes_set, bytes_hexLoop signed sha256Out buffer (Nat.le_refl 32), hx, ht,
    List.set_append_right _ _ (Nat.le_of_eq hl), hl]
  rfl

def hexString : CString :=
  ⟨hexText sha256Out, fun h => by
    obtain ⟨c, _, hc⟩ := List.mem_flatMap.mp h
    exact hexByte_ne_zero hc rfl⟩

theorem str_toHex : (toHex signed sha256Out buffer).str = hexString sha256Out :=
  CharArray.str_eq (s := hexString sha256Out) (bytes_toHex signed sha256Out buffer)

theorem length_hexString : (hexString sha256Out).length = 64 := length_hexText sha256Out

theorem terminated_toHex : (toHex signed sha256Out buffer).Terminated := by
  rw [CharArray.Terminated, bytes_toHex]
  exact List.mem_append_right _ List.mem_cons_self

end ToHex

/-! ### The same token on both devices -/

theorem hexByte_spells (c : UInt8) : ∃ x y, hexByte c = [x, y] ∧
    hexValue x = some (c.toNat / 16) ∧ hexValue y = some (c.toNat % 16) := by
  have hv : ∀ k < 16, hexValue (hexChars.getD k 0) = some k := by decide
  have hc : c.toNat < 256 := c.toNat_lt
  exact ⟨_, _, rfl, hv _ (by omega), hv _ (Nat.mod_lt _ (by decide))⟩

theorem mem_hexChars_of_mem_hexText {sha256Out : CharArray 32} {b : UInt8}
    (h : b ∈ hexText sha256Out) : b ∈ hexChars := by
  have hm : ∀ k < 16, hexChars.getD k 0 ∈ hexChars := by decide
  obtain ⟨c, -, hb⟩ := List.mem_flatMap.mp h
  have hc : c.toNat < 256 := c.toNat_lt
  rcases List.mem_cons.mp hb with rfl | hb
  · exact hm _ (by omega)
  · rw [List.mem_singleton.mp hb]
    exact hm _ (Nat.mod_lt _ (by decide))

/-- 64 hexadecimal characters that spell the digest. -/
structure Spells (digest : CharArray 32) (token : CString) : Prop where
  length : token.length = 64
  chars : ∀ c ∈ token.bytes, c ∈ hexChars
  spelled : unhex token.bytes = some digest.bytes

theorem hexString_spells (digest : CharArray 32) : Spells digest (hexString digest) where
  length := length_hexString digest
  chars _ h := mem_hexChars_of_mem_hexText h
  spelled := unhex_flatMap hexByte_spells digest.bytes

/-- The digits of a digest do not depend on the sign of `char`, nor on what was in the buffer. -/
theorem toHex_eq (signed signed' : Bool) (digest : CharArray 32) (buffer buffer' : CharArray 65) :
    toHex signed digest buffer = toHex signed' digest buffer' :=
  CharArray.ext ((bytes_toHex signed digest buffer).trans (bytes_toHex signed' digest buffer').symm)

/-- With a timestamp that is not negative, both devices build the same token: the hexadecimal digits
of the digest of the four strings and the timestamp in decimal, on either kind of `char`. -/
theorem same_token (malloc : Nat → (n : Nat) → CharArray n) (malloc' : (n : Nat) → CharArray n)
    (signed signed' : Bool) (sha256 : List UInt8 → CharArray 32)
    (appId appKey channelId userId : CString) {timestamp : Int32} (ht : 0 ≤ timestamp.toInt)
    (token : CharArray 65) :
    ∃ t : CharArray 65,
      Esp32.artcGenerateToken malloc signed sha256 (some appId) (some appKey) (some channelId)
        (some userId) timestamp = some (some t) ∧
      Jl.generateToken malloc' signed' sha256 (some appId) (some appKey) (some channelId)
        (some userId) timestamp token = some t ∧
      t.Terminated ∧
      Spells (sha256 (appId.bytes ++ appKey.bytes ++ channelId.bytes ++ userId.bytes ++
        (decimal timestamp.toInt).bytes)) t.str := by
  have hash := hashed_of_nonneg ht (malloc 0) appId appKey channelId userId
  have hash' := hashed_of_nonneg ht malloc' appId appKey channelId userId
  refine ⟨toHex signed (sha256 (content appId appKey channelId userId timestamp).bytes)
    (malloc 1 65), ?_, ?_, terminated_toHex .., ?_⟩
  · rw [Esp32.artcGenerateToken, hash]
    rfl
  · rw [Jl.generateToken, hash', toHex_eq signed signed' _ (malloc 1 65) token]
    rfl
  · rw [str_toHex, content]
    simp only [CString.bytes_append]
    exact hexString_spells _

/-- The SHA-256 digest of `demok9room7ann1700000000`. -/
def demoDigest : CharArray 32 where
  bytes :=
    [137, 69, 193, 190, 19, 213, 115, 57, 99, 76, 57, 225, 197, 36, 154, 42, 58, 222, 121, 143, 51,
      49, 187, 128, 170, 1, 126, 237, 211, 212, 176, 42]
  size := rfl

/-- The token of `demo`, `k9`, `room7` and `ann` at the time 1700000000, with a signed and with an
unsigned `char`. -/
theorem same_token_demo :
    let appId : CString := ⟨[100, 101, 109, 111], by decide⟩
    let appKey : CString := ⟨[107, 57], by decide⟩
    let channelId : CString := ⟨[114, 111, 111, 109, 55], by decide⟩
    let userId : CString := ⟨[97, 110, 110], by decide⟩
    ∃ t : CharArray 65,
      Esp32.artcGenerateToken (fun _ n => .zero n) false (fun _ => demoDigest) (some appId)
        (some appKey) (some channelId) (some userId) 1700000000 = some (some t) ∧
      Jl.generateToken (fun n => .zero n) true (fun _ => demoDigest) (some appId) (some appKey)
        (some channelId) (some userId) 1700000000 (.zero 65) = some t ∧
      t.Terminated ∧ Spells demoDigest t.str :=
  same_token _ _ _ _ _ _ _ _ _ (by decide) _

end AiCall
