import Mathlib.Data.List.Basic

/-! # Base64 with the alphabet for addresses, without padding

Three bytes are four digits of six bits. Of a shorter last group the bits that are left over are
zero, and text with other bits there is not decoded.
-/

namespace Base64

def alphabet : List Char :=
  "ABCDEFGHIJKLMNOPQRSTUVWXYZabcdefghijklmnopqrstuvwxyz0123456789-_".toList

def encodeDigits : List Nat → List Nat
  | [] => []
  | [x] => [x / 4, x % 4 * 16]
  | [x, y] => [x / 4, x % 4 * 16 + y / 16, y % 16 * 4]
  | x :: y :: z :: rest =>
      [x / 4, x % 4 * 16 + y / 16, y % 16 * 4 + z / 64, z % 64] ++ encodeDigits rest

def decodeDigits : List Nat → Option (List Nat)
  | [] => some []
  | [_] => none
  | [a, b] => if b % 16 = 0 then some [a * 4 + b / 16] else none
  | [a, b, c] => if c % 4 = 0 then some [a * 4 + b / 16, b % 16 * 16 + c / 4] else none
  | a :: b :: c :: d :: rest =>
      (decodeDigits rest).map fun bytes =>
        [a * 4 + b / 16, b % 16 * 16 + c / 4, c % 4 * 64 + d] ++ bytes

def encodeBytes (bytes : ByteArray) : String :=
  String.ofList ((encodeDigits (bytes.data.toList.map UInt8.toNat)).map fun digit =>
    alphabet.getD digit 'A')

def encode (text : String) : String := encodeBytes text.toUTF8

def decode (text : String) : Option ByteArray := do
  let digits ← text.toList.mapM fun char => alphabet.idxOf? char
  let bytes ← decodeDigits digits
  some ⟨(bytes.map UInt8.ofNat).toArray⟩

theorem encodeDigits_lt {bytes : List Nat} (hbytes : ∀ byte ∈ bytes, byte < 256) :
    ∀ digit ∈ encodeDigits bytes, digit < 64 := by
  induction bytes using encodeDigits.induct with
  | case1 => simp [encodeDigits]
  | case2 x =>
      simp only [List.mem_cons, List.not_mem_nil, or_false, forall_eq] at hbytes
      simp only [encodeDigits, List.mem_cons, List.not_mem_nil, or_false,
        forall_eq_or_imp, forall_eq]
      omega
  | case3 x y =>
      simp only [List.mem_cons, List.not_mem_nil, or_false, forall_eq_or_imp, forall_eq] at hbytes
      simp only [encodeDigits, List.mem_cons, List.not_mem_nil, or_false,
        forall_eq_or_imp, forall_eq]
      omega
  | case4 x y z rest ih =>
      simp only [List.mem_cons, forall_eq_or_imp] at hbytes
      simp only [encodeDigits, List.cons_append, List.nil_append, List.mem_cons, forall_eq_or_imp]
      obtain ⟨hx, hy, hz, hrest⟩ := hbytes
      exact ⟨by omega, by omega, by omega, by omega, ih hrest⟩

theorem decodeDigits_encodeDigits {bytes : List Nat} (hbytes : ∀ byte ∈ bytes, byte < 256) :
    decodeDigits (encodeDigits bytes) = some bytes := by
  induction bytes using encodeDigits.induct with
  | case1 => rfl
  | case2 x =>
      have hspare : x % 4 * 16 % 16 = 0 := by omega
      have hx : x / 4 * 4 + x % 4 * 16 / 16 = x := by omega
      rw [encodeDigits, decodeDigits, if_pos hspare, hx]
  | case3 x y =>
      have hy : y < 256 := hbytes y (by simp)
      have hspare : y % 16 * 4 % 4 = 0 := by omega
      have hx : x / 4 * 4 + (x % 4 * 16 + y / 16) / 16 = x := by omega
      have hy' : (x % 4 * 16 + y / 16) % 16 * 16 + y % 16 * 4 / 4 = y := by omega
      rw [encodeDigits, decodeDigits, if_pos hspare, hx, hy']
  | case4 x y z rest ih =>
      have hy : y < 256 := hbytes y (by simp)
      have hz : z < 256 := hbytes z (by simp)
      have hrest := ih fun byte hbyte => hbytes byte (by simp [hbyte])
      have hx : x / 4 * 4 + (x % 4 * 16 + y / 16) / 16 = x := by omega
      have hy' : (x % 4 * 16 + y / 16) % 16 * 16 + (y % 16 * 4 + z / 64) / 4 = y := by omega
      have hz' : (y % 16 * 4 + z / 64) % 4 * 64 + z % 64 = z := by omega
      simp only [encodeDigits, List.cons_append, List.nil_append, decodeDigits, hrest,
        Option.map_some, hx, hy', hz']

theorem idxOf_alphabet : ∀ digit < 64, alphabet.idxOf? (alphabet.getD digit 'A') = some digit := by
  decide +kernel

/-- What has been encoded decodes to its bytes. -/
theorem decode_encode (text : String) : decode (encode text) = some text.toUTF8 := by
  have hbytes : ∀ byte ∈ text.toUTF8.data.toList.map UInt8.toNat, byte < 256 := by
    intro byte hbyte
    obtain ⟨byte, _, rfl⟩ := List.mem_map.mp hbyte
    exact byte.toNat_lt
  have hdigits : (encode text).toList.mapM (fun char => alphabet.idxOf? char) =
      some (encodeDigits (text.toUTF8.data.toList.map UInt8.toNat)) := by
    rw [encode, encodeBytes, String.toList_ofList]
    have hlt := encodeDigits_lt hbytes
    generalize encodeDigits _ = digits at hlt
    induction digits with
    | nil => rfl
    | cons digit rest ih =>
        rw [List.map_cons, List.mapM_cons, idxOf_alphabet digit (hlt digit (by simp)),
          ih fun digit hdigit => hlt digit (by simp [hdigit])]
        rfl
  have hback : (text.toUTF8.data.toList.map UInt8.toNat).map UInt8.ofNat =
      text.toUTF8.data.toList := by
    rw [List.map_map]
    exact List.map_id'' (fun byte => UInt8.ofNat_toNat) _
  rw [decode, hdigits]
  simp only [Option.bind_eq_bind, Option.bind_some, decodeDigits_encodeDigits hbytes, hback,
    Array.toArray_toList]

example : encode "true" = "dHJ1ZQ" := by decide +kernel

end Base64
