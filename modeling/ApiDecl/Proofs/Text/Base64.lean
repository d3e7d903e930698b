import ApiDecl.Text.Base64
import Mathlib.Data.List.Basic

/-!
# Octets read back

Octets are read back from their text in the standard alphabet (`decode_encode`), in which there is
no hyphen (`hyphen_not_mem_encode`).
-/

namespace ApiDecl.Base64

theorem digitValue_digit : ∀ n < 64, digitValue? standard (digit standard n) = some n := by
  decide

theorem digit_ne_pad : ∀ n < 64, digit standard n ≠ '=' := by
  decide

theorem digit_ne_hyphen : ∀ n < 64, digit standard n ≠ '-' := by
  decide

theorem ofNat_eq {x : UInt8} {n : Nat} (h : n = x.toNat) : UInt8.ofNat n = x := by
  rw [h, UInt8.ofNat_toNat]

theorem decodeChars_encodeChars :
    ∀ octets : List UInt8, decodeChars standard (encodeChars octets) = some octets
  | [] => rfl
  | [x] => by
    have hx := x.toNat_lt
    have h1 := digitValue_digit (x.toNat * 16 / 64) (by omega)
    have h2 := digitValue_digit (x.toNat * 16 % 64) (by omega)
    have hpad : x.toNat * 16 % 64 % 16 = 0 := by omega
    have hoctet : UInt8.ofNat (x.toNat * 16 / 64 * 4 + x.toNat * 16 % 64 / 16) = x :=
      ofNat_eq (by omega)
    simp only [encodeChars, decodeChars, if_true, List.isEmpty_nil, decodeLast, h1, h2, hpad,
      hoctet, Option.bind_eq_bind, Option.bind_some]
  | [x, y] => by
    have hx := x.toNat_lt
    have hy := y.toNat_lt
    generalize hn : (x.toNat * 256 + y.toNat) * 4 = n
    have h1 := digitValue_digit (n / 4096) (by omega)
    have h2 := digitValue_digit (n / 64 % 64) (by omega)
    have h3 := digitValue_digit (n % 64) (by omega)
    have hdigit : digit standard (n % 64) ≠ '=' := digit_ne_pad _ (by omega)
    have hpad : n % 64 % 4 = 0 := by omega
    have hfirst : UInt8.ofNat (n / 4096 * 4 + n / 64 % 64 / 16) = x := ofNat_eq (by omega)
    have hsecond : UInt8.ofNat (n / 64 % 64 % 16 * 16 + n % 64 / 4) = y := ofNat_eq (by omega)
    simp only [encodeChars, hn, decodeChars, if_true, List.isEmpty_nil, decodeLast, h1, h2, h3,
      if_neg hdigit, hpad, hfirst, hsecond, Option.bind_eq_bind, Option.bind_some]
  | x :: y :: z :: rest => by
    have hx := x.toNat_lt
    have hy := y.toNat_lt
    have hz := z.toNat_lt
    generalize hn : (x.toNat * 256 + y.toNat) * 256 + z.toNat = n
    have h1 := digitValue_digit (n / 262144) (by omega)
    have h2 := digitValue_digit (n / 4096 % 64) (by omega)
    have h3 := digitValue_digit (n / 64 % 64) (by omega)
    have h4 := digitValue_digit (n % 64) (by omega)
    have hdigit : digit standard (n % 64) ≠ '=' := digit_ne_pad _ (by omega)
    have hfirst : UInt8.ofNat (n / 262144 * 4 + n / 4096 % 64 / 16) = x := ofNat_eq (by omega)
    have hsecond : UInt8.ofNat (n / 4096 % 64 % 16 * 16 + n / 64 % 64 / 4) = y :=
      ofNat_eq (by omega)
    have hthird : UInt8.ofNat (n / 64 % 64 % 4 * 64 + n % 64) = z := ofNat_eq (by omega)
    simp only [encodeChars, hn, decodeChars, if_neg hdigit, h1, h2, h3, h4, hfirst, hsecond, hthird,
      decodeChars_encodeChars rest, Option.bind_eq_bind, Option.bind_some]

/-- **Octets are read back** from their text. -/
theorem decode_encode (octets : List UInt8) : decode standard (encode octets) = some octets := by
  rw [decode, encode, String.toList_ofList, decodeChars_encodeChars]

theorem hyphen_not_mem_encodeChars : ∀ octets : List UInt8, '-' ∉ encodeChars octets
  | [] => List.not_mem_nil
  | [x] => by
    have hx := x.toNat_lt
    have h1 := digit_ne_hyphen (x.toNat * 16 / 64) (by omega)
    have h2 := digit_ne_hyphen (x.toNat * 16 % 64) (by omega)
    simp [encodeChars, h1.symm, h2.symm]
  | [x, y] => by
    have hx := x.toNat_lt
    have hy := y.toNat_lt
    generalize hn : (x.toNat * 256 + y.toNat) * 4 = n
    have h1 := digit_ne_hyphen (n / 4096) (by omega)
    have h2 := digit_ne_hyphen (n / 64 % 64) (by omega)
    have h3 := digit_ne_hyphen (n % 64) (by omega)
    simp [encodeChars, hn, h1.symm, h2.symm, h3.symm]
  | x :: y :: z :: rest => by
    have hx := x.toNat_lt
    have hy := y.toNat_lt
    have hz := z.toNat_lt
    generalize hn : (x.toNat * 256 + y.toNat) * 256 + z.toNat = n
    have h1 := digit_ne_hyphen (n / 262144) (by omega)
    have h2 := digit_ne_hyphen (n / 4096 % 64) (by omega)
    have h3 := digit_ne_hyphen (n / 64 % 64) (by omega)
    have h4 := digit_ne_hyphen (n % 64) (by omega)
    simp [encodeChars, hn, h1.symm, h2.symm, h3.symm, h4.symm, hyphen_not_mem_encodeChars rest]

theorem hyphen_not_mem_encode (octets : List UInt8) : '-' ∉ (encode octets).toList := by
  rw [encode, String.toList_ofList]
  exact hyphen_not_mem_encodeChars octets

end ApiDecl.Base64
