import Mathlib.Algebra.Group.Nat.Defs
import Mathlib.Data.List.Basic

/-! Strings of C and arrays of characters: the string that is read back from an array, and the
functions of `string.h` and `stdio.h` that write one. -/

namespace AiCall.Kit

/-- A string of C, without the byte that ends it. -/
@[ext] structure CString where
  bytes : List UInt8
  noNul : 0 ∉ bytes
deriving DecidableEq

namespace CString

/-- `strlen`. -/
def length (s : CString) : Nat := s.bytes.length

instance : Append CString where
  append s t := ⟨s.bytes ++ t.bytes, by simp [s.noNul, t.noNul]⟩

def take (s : CString) (k : Nat) : CString :=
  ⟨s.bytes.take k, fun h => s.noNul (List.mem_of_mem_take h)⟩

@[simp] theorem bytes_append (s t : CString) : (s ++ t).bytes = s.bytes ++ t.bytes := rfl

@[simp] theorem length_append (s t : CString) : (s ++ t).length = s.length + t.length :=
  List.length_append

@[simp] theorem length_take (s : CString) (k : Nat) : (s.take k).length = min k s.length :=
  List.length_take

theorem take_of_le {s : CString} {k : Nat} (h : s.length ≤ k) : s.take k = s :=
  CString.ext (List.take_of_length_le h)

end CString

/-- A pointer that can be NULL. -/
abbrev Ptr (α : Type*) := Option α

/-- An array of `n` characters. -/
@[ext] structure CharArray (n : Nat) where
  bytes : List UInt8
  size : bytes.length = n
deriving DecidableEq

namespace CharArray

variable {n : Nat}

/-- An array that `memset` or `= { 0 }` has cleared. -/
def zero (n : Nat) : CharArray n := ⟨List.replicate n 0, List.length_replicate⟩

def get (a : CharArray n) (i : Nat) : UInt8 := a.bytes.getD i 0

def set (a : CharArray n) (i : Nat) (c : UInt8) : CharArray n :=
  ⟨a.bytes.set i c, by rw [List.length_set, a.size]⟩

@[simp] theorem bytes_set (a : CharArray n) (i : Nat) (c : UInt8) :
    (a.set i c).bytes = a.bytes.set i c :=
  rfl

/-- The array after `xs` has been written to its start. -/
def overwrite (a : CharArray n) (xs : List UInt8) (h : xs.length ≤ n) : CharArray n where
  bytes := xs ++ a.bytes.drop xs.length
  size := by
    have hs := a.size
    rw [List.length_append, List.length_drop]
    omega

/-- `strncpy(a, s, k)`: NUL bytes follow a string shorter than `k`, and none a longer one. -/
def strncpy (a : CharArray n) (s : CString) (k : Nat) (h : k ≤ n := by omega) : CharArray n :=
  a.overwrite (s.bytes.take k ++ List.replicate (k - s.length) 0) (by
    rw [List.length_append, List.length_take, List.length_replicate, CString.length]
    omega)

/-- `snprintf(a, n, ..)` of a format that gives `text`; its value is `text.length`. -/
def snprintf (a : CharArray n) (text : CString) : CharArray n :=
  if h : 0 < n then
    a.overwrite (text.bytes.take (n - 1) ++ [0]) (by
      rw [List.length_append, List.length_take, List.length_singleton]
      omega)
  else a

/-- The first `len` bytes; there is no such read where they are not all in the array. -/
def read (a : CharArray n) (len : Nat) : Option (List UInt8) :=
  if len ≤ n then some (a.bytes.take len) else none

/-- The string that a reader of the array finds, up to its first NUL. -/
def str (a : CharArray n) : CString where
  bytes := a.bytes.takeWhile (· ≠ 0)
  noNul := fun h => by simpa using List.all_eq_true.mp List.all_takeWhile _ h

def Terminated (a : CharArray n) : Prop := 0 ∈ a.bytes

instance (a : CharArray n) : Decidable a.Terminated := inferInstanceAs (Decidable (_ ∈ _))

theorem takeWhile_nul (s : CString) (xs : List UInt8) :
    (s.bytes ++ 0 :: xs).takeWhile (· ≠ 0) = s.bytes := by
  have hs : ∀ c ∈ s.bytes, decide (c ≠ 0) = true := by
    intro c hc
    exact decide_eq_true fun h => s.noNul (h ▸ hc)
  rw [List.takeWhile_append_of_pos hs]
  simp

theorem str_eq {a : CharArray n} {s : CString} {xs : List UInt8}
    (h : a.bytes = s.bytes ++ 0 :: xs) : a.str = s := by
  apply CString.ext
  show a.bytes.takeWhile (· ≠ 0) = s.bytes
  rw [h]
  exact takeWhile_nul s xs

theorem terminated_zero (h : 0 < n) : (zero n).Terminated :=
  List.mem_replicate.mpr ⟨Nat.ne_of_gt h, rfl⟩

/-- What `strncpy` leaves in a cleared array that it does not fill. -/
theorem bytes_strncpy_zero (s : CString) {k : Nat} (h : k < n) :
    ∃ xs, ((zero n).strncpy s k (Nat.le_of_lt h)).bytes = (s.take k).bytes ++ 0 :: xs := by
  have hz : List.replicate (k - s.length) (0 : UInt8) ++ (List.replicate n (0 : UInt8)).drop k =
      0 :: List.replicate (k - s.length + (n - k) - 1) 0 := by
    rw [List.drop_replicate, List.replicate_append_replicate, ← List.replicate_succ]
    congr 1
    omega
  have hl : (s.bytes.take k ++ List.replicate (k - s.length) (0 : UInt8)).length = k := by
    rw [List.length_append, List.length_take, List.length_replicate, CString.length]
    omega
  refine ⟨List.replicate (k - s.length + (n - k) - 1) 0, ?_⟩
  show s.bytes.take k ++ List.replicate (k - s.length) 0 ++ (List.replicate n 0).drop _ = _
  rw [hl, List.append_assoc, hz]
  rfl

theorem str_strncpy_zero (s : CString) {k : Nat} (h : k < n) :
    ((zero n).strncpy s k (Nat.le_of_lt h)).str = s.take k := by
  obtain ⟨xs, hx⟩ := bytes_strncpy_zero s h
  exact str_eq hx

theorem terminated_strncpy_zero (s : CString) {k : Nat} (h : k < n) :
    ((zero n).strncpy s k (Nat.le_of_lt h)).Terminated := by
  obtain ⟨xs, hx⟩ := bytes_strncpy_zero s h
  rw [Terminated, hx]
  exact List.mem_append_right _ List.mem_cons_self

theorem bytes_snprintf (a : CharArray n) {text : CString} (h : text.length < n) :
    (a.snprintf text).bytes = text.bytes ++ 0 :: a.bytes.drop (text.length + 1) := by
  have hn : 0 < n := Nat.zero_lt_of_lt h
  have ht : text.bytes.take (n - 1) = text.bytes := List.take_of_length_le (Nat.le_sub_one_of_lt h)
  rw [snprintf, dif_pos hn]
  show text.bytes.take (n - 1) ++ [0] ++ a.bytes.drop _ = _
  rw [ht, List.append_assoc, List.length_append]
  rfl

theorem str_snprintf (a : CharArray n) {text : CString} (h : text.length < n) :
    (a.snprintf text).str = text :=
  str_eq (bytes_snprintf a h)

/-- Reading back as many bytes as `snprintf` says gives the text, where it fits in. -/
theorem read_snprintf (a : CharArray n) {text : CString} (h : text.length < n) :
    (a.snprintf text).read text.length = some text.bytes := by
  rw [read, if_pos (Nat.le_of_lt h), bytes_snprintf a h]
  exact congrArg some (List.take_left ..)

end CharArray

/-! ### Decimal numbers -/

def digits (k : Nat) : List UInt8 := (Nat.toDigits 10 k).map fun c => UInt8.ofNat c.toNat

theorem zero_notMem_digits (k : Nat) : 0 ∉ digits k := by
  intro h
  obtain ⟨c, hc, h0⟩ := List.mem_map.mp h
  have hd := Nat.isDigit_of_mem_toDigits (by decide) (by decide) hc
  have hr : 48 ≤ c.toNat ∧ c.toNat ≤ 57 := Char.isDigit_iff_toNat.mp hd
  have hn : (UInt8.ofNat c.toNat).toNat = 0 := congrArg UInt8.toNat h0
  rw [UInt8.toNat_ofNat'] at hn
  omega

theorem length_digits_of_lt {k : Nat} (h : k < 10) : (digits k).length = 1 := by
  rw [digits, List.length_map, Nat.toDigits_of_lt_base h]
  rfl

theorem length_digits_of_le {k : Nat} (h : 10 ≤ k) :
    (digits k).length = (digits (k / 10)).length + 1 := by
  rw [digits, digits, List.length_map, List.length_map, Nat.toDigits_of_base_le (by decide) h,
    List.length_append]
  rfl

theorem length_digits_le {k d : Nat} (hd : 0 < d) (h : k < 10 ^ d) : (digits k).length ≤ d := by
  rw [digits, List.length_map]
  exact (Nat.length_toDigits_le_iff (by decide) hd).mpr h

theorem length_digits_pos (k : Nat) : 0 < (digits k).length := by
  rw [digits, List.length_map]
  exact Nat.length_toDigits_pos

theorem length_digits_eq {k d : Nat} (hd : 0 < d) (hlow : 10 ^ d ≤ k) (hhigh : k < 10 ^ (d + 1)) :
    (digits k).length = d + 1 := by
  have hle : ¬ (digits k).length ≤ d := by
    rw [digits, List.length_map, Nat.length_toDigits_le_iff (by decide) hd]
    omega
  have := length_digits_le (Nat.succ_pos d) hhigh
  omega

/-- The digits are read back. -/
theorem chars_digits (k : Nat) :
    (digits k).map (fun b => Char.ofNat b.toNat) = Nat.toDigits 10 k := by
  have hc : ∀ c ∈ Nat.toDigits 10 k,
      ((fun b : UInt8 => Char.ofNat b.toNat) ∘ fun c : Char => UInt8.ofNat c.toNat) c = id c := by
    intro c hc
    have hd := Nat.isDigit_of_mem_toDigits (by decide) (by decide) hc
    have hr : 48 ≤ c.toNat ∧ c.toNat ≤ 57 := Char.isDigit_iff_toNat.mp hd
    show Char.ofNat (UInt8.ofNat c.toNat).toNat = c
    rw [UInt8.toNat_ofNat', Nat.mod_eq_of_lt (by omega)]
    exact Char.ofNat_toNat c
  rw [digits, List.map_map, List.map_congr_left hc, List.map_id]

theorem digits_injective : Function.Injective digits := by
  intro k l h
  have hd : Nat.toDigits 10 k = Nat.toDigits 10 l := by rw [← chars_digits, h, chars_digits]
  rw [← Nat.ofDigitChars_ten_toDigits (n := k), hd, Nat.ofDigitChars_ten_toDigits]

/-- `"%d"`. -/
def decimal : Int → CString
  | .ofNat k => ⟨digits k, zero_notMem_digits k⟩
  | .negSucc k => ⟨45 :: digits (k + 1), by simp [zero_notMem_digits]⟩

/-- The sign takes a character. -/
theorem two_le_length_decimal {t : Int} (h : t < 0) : 2 ≤ (decimal t).length := by
  obtain ⟨k, rfl⟩ := Int.eq_negSucc_of_lt_zero h
  have hpos := length_digits_pos (k + 1)
  show 2 ≤ (45 :: digits (k + 1)).length
  rw [List.length_cons]
  omega

end AiCall.Kit
