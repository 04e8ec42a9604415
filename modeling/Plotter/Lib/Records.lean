import Mathlib.Data.List.Basic
import Mathlib.Tactic.Common

/-!
# Walking over length-prefixed records

Records stand one after the other in an array, each behind a byte that holds its length,
and a zero ends them. `walk` goes from record to record until a test hits: it knows nothing
of the records but their lengths, and reading outside of the array gives `none`.

## Main definitions

* `LengthPrefixed α`: what the records of a type look like.
* `LengthPrefixed.encode`, `LengthPrefixed.offset?`: the array, and where a record begins.
* `walk`: the loop. Every step goes forward, so the fuel is the number of bytes.
* `LengthPrefixed.walk_encode`: on an array of records it finds the first one that is meant.
-/

namespace Lib

/-- What stands behind the length byte, which counts itself. -/
structure LengthPrefixed (α : Type*) where
  body : α → List UInt8
  fits : ∀ d, (body d).length < 255

/-- From record to record: the address of the first hit, and `some none` at the end. -/
def walk (hit : ℕ → Option Bool) (mem : List UInt8) : ℕ → ℕ → Option (Option ℕ)
  | 0, _ => none
  | fuel + 1, a => do
    let length ← mem[a]?
    if length = 0 then some none
    else if ← hit a then some (some a)
    else walk hit mem fuel (a + length.toNat)

namespace LengthPrefixed

variable {α : Type*} (F : LengthPrefixed α)

/-- A record with its length byte. -/
def bytes (d : α) : List UInt8 := UInt8.ofNat ((F.body d).length + 1) :: F.body d

def encode (ds : List α) : List UInt8 := ds.flatMap F.bytes

/-- Where the first record of a kind begins. -/
def offset? (p : α → Bool) : List α → Option ℕ
  | [] => none
  | d :: ds => if p d then some 0 else (offset? p ds).map ((F.bytes d).length + ·)

@[simp] theorem length_bytes (d : α) : (F.bytes d).length = (F.body d).length + 1 :=
  List.length_cons

@[simp] theorem encode_cons (d : α) (ds : List α) :
    F.encode (d :: ds) = F.bytes d ++ F.encode ds :=
  List.flatMap_cons

theorem length_le_length_encode (ds : List α) : ds.length ≤ (F.encode ds).length := by
  induction ds with
  | nil => simp
  | cons d ds ih =>
      rw [encode_cons, List.length_cons, List.length_append, length_bytes]
      omega

theorem toNat_length (d : α) :
    (UInt8.ofNat ((F.body d).length + 1)).toNat = (F.bytes d).length := by
  have hfits := F.fits d
  rw [UInt8.toNat_ofNat', length_bytes]
  omega

/-- The length byte of a record is not the zero that ends the array. -/
theorem length_ne_zero (d : α) : UInt8.ofNat ((F.body d).length + 1) ≠ 0 := by
  intro h
  have hlen := F.toNat_length d
  rw [h, length_bytes] at hlen
  simp at hlen

/-- The walk from the record behind `before`. -/
theorem walk_records {hit : ℕ → Option Bool} {p : α → Bool} {mem rest : List UInt8}
    (hhit : ∀ before d after, mem = F.encode before ++ (F.bytes d ++ after) →
      hit (F.encode before).length = some (p d))
    (before ds : List α) (hmem : mem = F.encode before ++ (F.encode ds ++ 0 :: rest))
    {fuel : ℕ} (hfuel : ds.length < fuel) :
    walk hit mem fuel (F.encode before).length =
      some ((F.offset? p ds).map ((F.encode before).length + ·)) := by
  induction ds generalizing before fuel with
  | nil =>
      cases fuel with
      | zero => omega
      | succ fuel =>
          have hend : mem[(F.encode before).length]? = some 0 := by
            rw [hmem, List.getElem?_append_right (Nat.le_refl _), Nat.sub_self]
            simp [encode]
          simp [walk, hend, offset?]
  | cons d ds ih =>
      cases fuel with
      | zero => omega
      | succ fuel =>
          rw [List.length_cons] at hfuel
          rw [encode_cons, List.append_assoc] at hmem
          have hlength : mem[(F.encode before).length]? =
              some (UInt8.ofNat ((F.body d).length + 1)) := by
            rw [hmem, List.getElem?_append_right (Nat.le_refl _), Nat.sub_self, bytes,
              List.cons_append, List.getElem?_cons_zero]
          have hhere := hhit before d _ hmem
          have hbehind : (F.encode (before ++ [d])).length =
              (F.encode before).length + (F.bytes d).length := by
            simp [encode]
          have hrest := ih (before ++ [d]) (by rw [hmem]; simp [encode])
            (show ds.length < fuel by omega)
          rw [hbehind] at hrest
          simp only [walk, hlength, hhere, Option.bind_eq_bind, Option.bind_some,
            if_neg (F.length_ne_zero d), toNat_length, hrest]
          cases hp : p d with
          | true => simp [offset?, hp]
          | false => simp [offset?, hp, Function.comp_def, Nat.add_assoc]

/-- **The walk finds the first record that is meant**, whatever stands behind the end. -/
theorem walk_encode {hit : ℕ → Option Bool} {p : α → Bool} {ds : List α} {rest : List UInt8}
    (hhit : ∀ before d after,
      F.encode ds ++ 0 :: rest = F.encode before ++ (F.bytes d ++ after) →
      hit (F.encode before).length = some (p d)) :
    walk hit (F.encode ds ++ 0 :: rest) (F.encode ds ++ 0 :: rest).length 0 =
      some (F.offset? p ds) := by
  have hlen := F.length_le_length_encode ds
  have hfuel : ds.length < (F.encode ds ++ 0 :: rest).length := by
    rw [List.length_append, List.length_cons]
    omega
  have hwalk := F.walk_records hhit [] ds rfl hfuel
  simpa [encode] using hwalk

end LengthPrefixed

end Lib
