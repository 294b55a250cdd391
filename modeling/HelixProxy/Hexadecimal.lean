import HelixProxy.PacText

/-!
# Hexadecimal escapes

The number that fixed-width hexadecimal digits stand for, as `strconv` and
`encoding/json` read it back from an escape.
-/

namespace HelixProxy.Strconv

set_option autoImplicit false

def hexNumber (digits : Bytes) : Nat := digits.foldl (fun n d => n * 16 + Js.hexValue d.toNat) 0

theorem hexNumber_hex (width n : Nat) : hexNumber (hex width n) = n % 16 ^ width := by
  induction width generalizing n with
  | zero => simp [hexNumber, hex, Nat.mod_one]
  | succ width ih =>
    obtain ⟨-, hvalue, -⟩ := Js.hexDigit_spec (Nat.mod_lt n (by omega : 0 < 16))
    have hlast : hexNumber (hex (width + 1) n) = hexNumber (hex width (n / 16)) * 16 + n % 16 := by
      rw [hex, hexNumber, List.foldl_append, List.foldl_cons, List.foldl_nil, hvalue]
      rfl
    rw [hlast, ih, Nat.pow_succ', Nat.mod_mul]
    omega

theorem length_hex (width n : Nat) : (hex width n).length = width := by
  induction width generalizing n with
  | zero => rfl
  | succ width ih => rw [hex, List.length_append, ih, List.length_singleton]

/-- A number that fits is read back from its digits, whatever follows them. -/
theorem hexNumber_take {width n : Nat} (h : n < 16 ^ width) (t : Bytes) :
    hexNumber ((hex width n ++ t).take width) = n := by
  rw [List.take_left' (length_hex width n), hexNumber_hex, Nat.mod_eq_of_lt h]

end HelixProxy.Strconv
