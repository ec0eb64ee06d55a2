import Mathlib.Data.List.Basic

/-! Reading hexadecimal text, two characters for each byte. -/

namespace AiCall.Kit

/-- The value of one of the characters `0` to `9` and `a` to `f`. -/
def hexValue (c : UInt8) : Option Nat :=
  if 48 ≤ c.toNat ∧ c.toNat ≤ 57 then some (c.toNat - 48)
  else if 97 ≤ c.toNat ∧ c.toNat ≤ 102 then some (c.toNat - 87)
  else none

/-- The bytes that a text spells, if it spells any. -/
def unhex : List UInt8 → Option (List UInt8)
  | [] => some []
  | [_] => none
  | x :: y :: text =>
    match hexValue x, hexValue y with
    | some high, some low => (unhex text).map (UInt8.ofNat (high * 16 + low) :: ·)
    | _, _ => none

theorem unhex_cons {x y : UInt8} {high low : Nat} (hx : hexValue x = some high)
    (hy : hexValue y = some low) (text : List UInt8) :
    unhex (x :: y :: text) = (unhex text).map (UInt8.ofNat (high * 16 + low) :: ·) := by
  simp only [unhex, hx, hy]

/-- What spells each byte by its two nibbles is read back. -/
theorem unhex_flatMap {spell : UInt8 → List UInt8}
    (h : ∀ c, ∃ x y, spell c = [x, y] ∧ hexValue x = some (c.toNat / 16) ∧
      hexValue y = some (c.toNat % 16)) (cs : List UInt8) : unhex (cs.flatMap spell) = some cs := by
  induction cs with
  | nil => rfl
  | cons c cs ih =>
    obtain ⟨x, y, hc, hx, hy⟩ := h c
    have hbyte : UInt8.ofNat (c.toNat / 16 * 16 + c.toNat % 16) = c := by
      rw [Nat.mul_comm, Nat.div_add_mod]
      exact UInt8.ofNat_toNat
    rw [List.flatMap_cons, hc]
    show unhex (x :: y :: cs.flatMap spell) = _
    rw [unhex_cons hx hy, ih, hbyte]
    rfl

end AiCall.Kit
