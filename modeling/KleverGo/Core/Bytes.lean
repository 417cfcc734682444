import Mathlib

/-!
# Byte strings and storage keys

Addresses, identifiers and storage keys are byte strings.  The module gives the handful of
operations the KApps use on them (`bytes.Split` at the separator, hexadecimal text, the
fixed-width encodings hashed into identifiers) and the key of a KDA record, `toKDAKey`.

Principal results:

* `toKDAKey_plain_injective` — the key of a whole asset determines the asset;
* `toKDAKey_item_ne_plain` — the key of an item is never that of a whole asset;
* `hexEncode_injective` — hexadecimal text determines the bytes.
-/

set_option autoImplicit false

namespace KleverGo

abbrev Bytes := List UInt8

/-- `kapps.Sp`, the byte `/`. -/
def sp : UInt8 := 47

/-- `KLV` -/
def KLVIdentifier : Bytes := [75, 76, 86]

/-- `KFI` -/
def KFIIdentifier : Bytes := [75, 70, 73]

/-- `kapps.KDAPrefix`, the bytes of `KDA`. -/
def KDAPrefix : Bytes := [75, 68, 65]

/-- A stored byte field as the code reads it back: an empty field decodes to `nil`. -/
def decodedBytes : Bytes → Option Bytes
  | [] => none
  | b => some b

/-! ## Splitting at the separator -/

/-- `bytes.Split(b, "/")` -/
def splitSp : Bytes → List Bytes
  | [] => [[]]
  | c :: cs =>
    if c = sp then [] :: splitSp cs
    else match splitSp cs with
      | [] => [[c]]
      | w :: ws => (c :: w) :: ws

/-! ## KDA keys -/

/-- Whether a nonce names an item inside an asset: neither empty nor `"0"`. -/
def isItemNonce (nonce : Bytes) : Bool := !nonce.isEmpty && nonce != [48]

def toKDAKey (kdaID nonce : Bytes) : Bytes :=
  KDAPrefix ++ sp :: kdaID ++ (if isItemNonce nonce then sp :: nonce else [])

theorem toKDAKey_plain (kdaID : Bytes) : toKDAKey kdaID [] = KDAPrefix ++ sp :: kdaID := by
  simp [toKDAKey, isItemNonce]

theorem toKDAKey_of_not_item {nonce : Bytes} (h : ¬ isItemNonce nonce) (kdaID : Bytes) :
    toKDAKey kdaID nonce = toKDAKey kdaID [] := by
  rw [toKDAKey_plain, toKDAKey, if_neg h, List.append_nil]

theorem toKDAKey_plain_injective {a b : Bytes} (h : toKDAKey a [] = toKDAKey b []) : a = b := by
  simpa [toKDAKey_plain] using h

/-- The key of an item is never the key of an asset whose identifier has no separator. -/
theorem toKDAKey_item_ne_plain {a b n : Bytes} (hb : sp ∉ b) (hn : isItemNonce n) :
    toKDAKey a n ≠ toKDAKey b [] := by
  intro h
  rw [toKDAKey_plain] at h
  simp only [toKDAKey, hn, if_true, List.append_assoc, List.append_cancel_left_eq,
    List.cons_append, List.cons.injEq, true_and] at h
  exact hb (h ▸ by simp)

/-! ## Hexadecimal text and identifiers -/

/-- The lower case digit of a half byte. -/
def hexDigit (n : UInt8) : UInt8 := if n < 10 then 48 + n else 87 + n

/-- `hex.EncodeToString`, also `fmt.Sprintf("%x", b)` -/
def hexEncode (b : Bytes) : Bytes := b.flatMap fun c => [hexDigit (c / 16), hexDigit (c % 16)]

/-- The value of a hexadecimal digit of either case. -/
def hexValue (c : UInt8) : Option UInt8 :=
  if 48 ≤ c ∧ c ≤ 57 then some (c - 48)
  else if 97 ≤ c ∧ c ≤ 102 then some (c - 87)
  else if 65 ≤ c ∧ c ≤ 70 then some (c - 55)
  else none

/-- `hex.DecodeString`: digits of either case, in pairs. -/
def hexDecode : Bytes → Option Bytes
  | [] => some []
  | [_] => none
  | c :: d :: rest =>
    match hexValue c, hexValue d, hexDecode rest with
    | some x, some y, some bs => some ((16 * x + y) :: bs)
    | _, _, _ => none

theorem hexValue_hexDigit (c : UInt8) :
    hexValue (hexDigit (c / 16)) = some (c / 16) ∧ hexValue (hexDigit (c % 16)) = some (c % 16) ∧
      16 * (c / 16) + c % 16 = c := by
  have key : ∀ n : Fin 256, let d := UInt8.ofNat n
      hexValue (hexDigit (d / 16)) = some (d / 16) ∧ hexValue (hexDigit (d % 16)) = some (d % 16) ∧
        16 * (d / 16) + d % 16 = d := by
    decide +kernel
  simpa using key ⟨c.toNat, c.toNat_lt⟩

theorem hexDecode_hexEncode : ∀ b : Bytes, hexDecode (hexEncode b) = some b
  | [] => rfl
  | c :: b => by
    obtain ⟨h1, h2, h3⟩ := hexValue_hexDigit c
    have ih := hexDecode_hexEncode b
    simp only [hexEncode, List.flatMap_cons, List.cons_append, List.nil_append] at ih ⊢
    simp [hexDecode, h1, h2, h3, ih]

theorem hexEncode_injective : Function.Injective hexEncode := by
  intro a b h
  have := hexDecode_hexEncode a
  rw [h, hexDecode_hexEncode b] at this
  exact (Option.some.inj this).symm

/-- `binary.BigEndian.PutUint64` -/
def bigEndian64 (n : UInt64) : Bytes :=
  [(n >>> 56).toUInt8, (n >>> 48).toUInt8, (n >>> 40).toUInt8, (n >>> 32).toUInt8,
   (n >>> 24).toUInt8, (n >>> 16).toUInt8, (n >>> 8).toUInt8, n.toUInt8]

def marketKeyLength : Nat := 8

def toMarketID (hash : Bytes → Bytes) (randSeed sender : Bytes) (nonce : UInt64)
    (contractIndex : Int64) (marketKeyLength : Nat) : Bytes :=
  (hash (randSeed ++ sender ++ hexEncode (bigEndian64 nonce) ++
    hexEncode (bigEndian64 contractIndex.toUInt64))).take marketKeyLength

def safeI64ToU64 (value : Int64) : UInt64 := if value < 0 then 0 else value.toUInt64

def toBucketID (hash : Bytes → Bytes) (randSeed sender assetID : Bytes) (nonce : UInt64)
    (contractIndex amount : Int64) : Bytes :=
  hash (randSeed ++ sender ++ assetID ++ hexEncode (bigEndian64 nonce) ++
    hexEncode (bigEndian64 contractIndex.toUInt64) ++
    hexEncode (bigEndian64 (safeI64ToU64 amount)))

end KleverGo
