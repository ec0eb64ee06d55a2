import Mathlib.Data.List.Basic

/-! A bounded FIFO ring of bytes.  Libraries differ in what an operation does that cannot be done in
full, so the number of bytes that it moves is given by a rule. -/

namespace AiCall.Kit

/-- What an operation does that cannot move all the bytes it is asked to. -/
inductive Rule where
  | whole  -- it moves nothing
  | cut  -- it moves as many as it can
deriving DecidableEq, Repr

/-- The number of bytes moved when `len` are asked for and `avail` can be moved. -/
def Rule.moved : Rule → Nat → Nat → Nat
  | .whole, len, avail => if len ≤ avail then len else 0
  | .cut, len, avail => min len avail

namespace Rule

variable (r : Rule) {len avail w : Nat}

theorem moved_le_len : r.moved len avail ≤ len := by
  cases r with
  | whole => simp only [moved]; split <;> omega
  | cut => exact Nat.min_le_left ..

theorem moved_le_avail : r.moved len avail ≤ avail := by
  cases r with
  | whole => simp only [moved]; split <;> omega
  | cut => exact Nat.min_le_right ..

theorem moved_of_le (h : len ≤ avail) : r.moved len avail = len := by
  cases r with
  | whole => exact if_pos h
  | cut => exact Nat.min_eq_left h

/-- Where the two counts are multiples of `w`, so is what is moved. -/
theorem dvd_moved (hl : w ∣ len) (ha : w ∣ avail) : w ∣ r.moved len avail := by
  cases r with
  | whole =>
    simp only [moved]
    split
    · exact hl
    · exact Nat.dvd_zero w
  | cut =>
    rcases Nat.le_total len avail with h | h
    · simpa only [moved, Nat.min_eq_left h] using hl
    · simpa only [moved, Nat.min_eq_right h] using ha

end Rule

/-- A ring of `cap` bytes, with the oldest byte first. -/
structure Ring (β : Type*) (cap : Nat) where
  data : List β
  fits : data.length ≤ cap

namespace Ring

variable {β : Type*} {cap : Nat}

def empty : Ring β cap := ⟨[], Nat.zero_le _⟩

def size (r : Ring β cap) : Nat := r.data.length

def free (r : Ring β cap) : Nat := cap - r.size

/-- The number of bytes that a write of `len` bytes stores. -/
def stored (rule : Rule) (r : Ring β cap) (len : Nat) : Nat := rule.moved len r.free

/-- The number of bytes that a read of `len` bytes returns. -/
def taken (rule : Rule) (r : Ring β cap) (len : Nat) : Nat := rule.moved len r.size

theorem stored_le (rule : Rule) (r : Ring β cap) (len : Nat) : r.stored rule len ≤ r.free :=
  rule.moved_le_avail

/-- A write: the first `stored` bytes go to the end of the ring. -/
def write (rule : Rule) (r : Ring β cap) (xs : List β) : Ring β cap where
  data := r.data ++ xs.take (r.stored rule xs.length)
  fits := by
    have hs := r.stored_le rule xs.length
    have hf := r.fits
    simp only [free, size] at hs
    rw [List.length_append, List.length_take]
    omega

def head (rule : Rule) (r : Ring β cap) (len : Nat) : List β := r.data.take (r.taken rule len)

def rest (rule : Rule) (r : Ring β cap) (len : Nat) : Ring β cap where
  data := r.data.drop (r.taken rule len)
  fits := by
    have hf := r.fits
    rw [List.length_drop]
    omega

theorem head_append_rest (rule : Rule) (r : Ring β cap) (len : Nat) :
    r.head rule len ++ (r.rest rule len).data = r.data :=
  List.take_append_drop ..

@[simp] theorem size_empty : (empty : Ring β cap).size = 0 := rfl

theorem size_write (rule : Rule) (r : Ring β cap) (xs : List β) :
    (r.write rule xs).size = r.size + r.stored rule xs.length := by
  have hs : r.stored rule xs.length ≤ xs.length := rule.moved_le_len
  simp only [size, write, List.length_append, List.length_take]
  omega

theorem dvd_size_write (rule : Rule) {r : Ring β cap} {xs : List β} {w : Nat} (hcap : w ∣ cap)
    (hr : w ∣ r.size) (hxs : w ∣ xs.length) : w ∣ (r.write rule xs).size := by
  rw [size_write]
  exact Nat.dvd_add hr (rule.dvd_moved hxs (Nat.dvd_sub hcap hr))

theorem length_head (rule : Rule) (r : Ring β cap) (len : Nat) :
    (r.head rule len).length = r.taken rule len := by
  have ht : r.taken rule len ≤ r.size := rule.moved_le_avail
  simp only [head, List.length_take]
  exact Nat.min_eq_left ht

theorem size_rest (rule : Rule) (r : Ring β cap) (len : Nat) :
    (r.rest rule len).size = r.size - r.taken rule len := by
  simp [size, rest]

theorem dvd_size_rest (rule : Rule) {r : Ring β cap} {len w : Nat} (hr : w ∣ r.size)
    (hlen : w ∣ len) : w ∣ (r.rest rule len).size := by
  rw [size_rest]
  exact Nat.dvd_sub hr (rule.dvd_moved hlen hr)

end Ring

end AiCall.Kit
