import Mathlib.Algebra.Group.Int.Defs
import Mathlib.Logic.Function.Basic
import AiCall.Token

/-! The channel id of a call, which `generate_simple_uuid` makes in the same way on both devices,
and what the bytes that a token signs say about the call. -/

namespace AiCall

open Kit

/-! ### `generate_simple_uuid` -/

/-- The `i`-th step of the loop, which uses the `i`-th result of `rand`. -/
def uuidStep (rand : Nat → Nat) (out : CharArray 33) (i : Nat) : CharArray 33 :=
  out.set i (hexChars.getD (rand i % 16) 0)

/-- `(unsigned int)time(NULL)`. -/
def seed (time : Nat) : UInt32 := UInt32.ofNat time

/-- `generate_simple_uuid` at a time in seconds; `rand s` is the sequence after `srand(s)`. -/
def generateSimpleUuid (rand : UInt32 → Nat → Nat) (time : Nat) (out : CharArray 33) :
    CharArray 33 :=
  ((List.range 32).foldl (uuidStep (rand (seed time))) out).set 32 0

def uuidText (rand : Nat → Nat) (i : Nat) : List UInt8 :=
  (List.range i).map fun j => hexChars.getD (rand j % 16) 0

theorem length_uuidText (rand : Nat → Nat) (i : Nat) : (uuidText rand i).length = i := by
  rw [uuidText, List.length_map, List.length_range]

theorem uuidText_succ (rand : Nat → Nat) (i : Nat) :
    uuidText rand (i + 1) = uuidText rand i ++ [hexChars.getD (rand i % 16) 0] := by
  rw [uuidText, List.range_succ, List.map_append]
  rfl

/-- The invariant of the loop: the characters before `i` have been written, and no others. -/
theorem bytes_uuidLoop (rand : Nat → Nat) (out : CharArray 33) {i : Nat} (hi : i ≤ 32) :
    ((List.range i).foldl (uuidStep rand) out).bytes = uuidText rand i ++ out.bytes.drop i := by
  induction i with
  | zero => rfl
  | succ i ih =>
    have hs := out.size
    have hd : out.bytes.drop i = out.bytes[i] :: out.bytes.drop (i + 1) :=
      List.drop_eq_getElem_cons (by omega)
    have hl := length_uuidText rand i
    rw [List.range_succ, List.foldl_append, List.foldl_cons, List.foldl_nil, uuidStep,
      CharArray.bytes_set, ih (by omega), hd, List.set_append_right _ _ (Nat.le_of_eq hl), hl,
      Nat.sub_self, List.set_cons_zero, uuidText_succ, List.append_assoc]
    rfl

theorem hexChars_getD_ne_zero (k : Nat) : hexChars.getD (k % 16) 0 ≠ 0 := by
  have h : ∀ k < 16, hexChars.getD k 0 ≠ 0 := by decide
  exact h _ (Nat.mod_lt _ (by decide))

/-- The string of 32 characters that a seed leads to. -/
def simpleUuid (rand : UInt32 → Nat → Nat) (s : UInt32) : CString where
  bytes := uuidText (rand s) 32
  noNul h := by
    obtain ⟨j, -, hj⟩ := List.mem_map.mp h
    exact hexChars_getD_ne_zero _ hj

theorem length_simpleUuid (rand : UInt32 → Nat → Nat) (s : UInt32) :
    (simpleUuid rand s).length = 32 :=
  length_uuidText (rand s) 32

theorem bytes_generateSimpleUuid (rand : UInt32 → Nat → Nat) (time : Nat) (out : CharArray 33) :
    (generateSimpleUuid rand time out).bytes = (simpleUuid rand (seed time)).bytes ++ [0] := by
  have hd : ∃ x, out.bytes.drop 32 = [x] := by
    rw [← List.length_eq_one_iff, List.length_drop, out.size]
  obtain ⟨x, hx⟩ := hd
  have hl := length_uuidText (rand (seed time)) 32
  rw [generateSimpleUuid, CharArray.bytes_set, bytes_uuidLoop _ _ (Nat.le_refl 32), hx,
    List.set_append_right _ _ (Nat.le_of_eq hl), hl]
  rfl

/-- The caller of `generate_simple_uuid` finds a string of 32 characters. -/
theorem str_generateSimpleUuid (rand : UInt32 → Nat → Nat) (time : Nat) (out : CharArray 33) :
    (generateSimpleUuid rand time out).str = simpleUuid rand (seed time) :=
  CharArray.str_eq (bytes_generateSimpleUuid rand time out)

/-! ### What a signature covers -/

section Signature

variable {appId appKey channelId channelId' userId userId' : CString} {timestamp timestamp' : Int32}

/-- The decimal of a time after September 2001 has ten digits. -/
theorem decimal_of_ge (h : 10 ^ 9 ≤ timestamp.toInt) :
    ∃ k : Nat, timestamp.toInt = k ∧ (decimal timestamp.toInt).bytes = digits k ∧
      (digits k).length = 10 := by
  have hlt := timestamp.toInt_lt
  obtain ⟨k, hk⟩ := Int.eq_ofNat_of_zero_le (show 0 ≤ timestamp.toInt by omega)
  refine ⟨k, hk, by rw [hk]; rfl, length_digits_eq (by decide) (by omega) (by omega)⟩

/-- A channel id of 32 characters in front and ten digits at the end leave one way to read the
text. -/
theorem content_injective (hc : channelId.length = 32) (hc' : channelId'.length = 32)
    (ht : 10 ^ 9 ≤ timestamp.toInt) (ht' : 10 ^ 9 ≤ timestamp'.toInt)
    (h : (content appId appKey channelId userId timestamp).bytes =
      (content appId appKey channelId' userId' timestamp').bytes) :
    channelId = channelId' ∧ userId = userId' ∧ timestamp = timestamp' := by
  obtain ⟨k, hk, hd, hl⟩ := decimal_of_ge ht
  obtain ⟨k', hk', hd', hl'⟩ := decimal_of_ge ht'
  simp only [content, CString.bytes_append, List.append_assoc, hd, hd'] at h
  have hrest := List.append_cancel_left (List.append_cancel_left h)
  obtain ⟨hchannel, htail⟩ := List.append_inj hrest (hc.trans hc'.symm)
  obtain ⟨huser, hdigits⟩ := List.append_inj' htail (hl.trans hl'.symm)
  refine ⟨CString.ext hchannel, CString.ext huser, Int32.toInt_inj.mp ?_⟩
  rw [hk, hk', digits_injective hdigits]

/-- With the same application, two calls hash the same bytes only if they have the same channel id,
user id and timestamp. -/
theorem hashed_injective (buffer buffer' : (n : Nat) → CharArray n)
    (hc : channelId.length = 32) (hc' : channelId'.length = 32)
    (ht : 10 ^ 9 ≤ timestamp.toInt) (ht' : 10 ^ 9 ≤ timestamp'.toInt)
    (h : hashed buffer appId appKey channelId userId timestamp =
      hashed buffer' appId appKey channelId' userId' timestamp') :
    channelId = channelId' ∧ userId = userId' ∧ timestamp = timestamp' := by
  rw [hashed_of_nonneg (by omega), hashed_of_nonneg (by omega)] at h
  exact content_injective hc hc' ht ht' (Option.some.inj h)

end Signature

/-- The call of a user `9` at the time 1700000000. -/
theorem hashed_injective_sample :
    let c := simpleUuid (fun _ i => i) (seed 0)
    c = c ∧ (⟨[57], by decide⟩ : CString) = ⟨[57], by decide⟩ ∧ (1700000000 : Int32) = 1700000000 :=
  @hashed_injective ⟨[97], by decide⟩ ⟨[107], by decide⟩ _ _ _ _ _ _ .zero
    (fun n => ⟨List.replicate n 1, List.length_replicate⟩) (length_simpleUuid ..)
    (length_simpleUuid ..) (by decide) (by decide)
    ((hashed_of_nonneg (by decide) ..).trans (hashed_of_nonneg (by decide) ..).symm)

end AiCall
