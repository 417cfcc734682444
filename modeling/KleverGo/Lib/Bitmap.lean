import Mathlib

/-!
# Bitmaps

A list of bytes as a set of positions, the lowest bit of the first byte being position zero.  The
number of ones in the bytes is the number of positions (`card_positions`), and the positions that
are in the range of a list of distinct members designate as many members (`card_membersAt`).
-/

set_option autoImplicit false

namespace KleverGo

abbrev Bitmap := List UInt8

def byteBit (byte : UInt8) (index : Nat) : Bool := byte &&& (1 <<< UInt8.ofNat index) != 0

def onesCount8 (byte : UInt8) : Nat := Nat.count (fun index => byteBit byte index) 8

namespace Bitmap

variable (bitmap : Bitmap)

def bit (position : Nat) : Bool :=
  byteBit (bitmap.getD (position / 8) 0) (position % 8)

def onesCount : Nat := (bitmap.map onesCount8).sum

/-- The positions whose bit is set. -/
def positions : Finset Nat :=
  (Finset.range (8 * bitmap.length)).filter fun position => bitmap.bit position

theorem bit_cons_of_lt (byte : UInt8) (bitmap : Bitmap) {index : Nat} (h : index < 8) :
    bit (byte :: bitmap) index = byteBit byte index := by
  unfold bit
  rw [Nat.div_eq_of_lt h, Nat.mod_eq_of_lt h, List.getD_cons_zero]

theorem bit_cons_add (byte : UInt8) (bitmap : Bitmap) (position : Nat) :
    bit (byte :: bitmap) (8 + position) = bitmap.bit position := by
  have hdiv : (8 + position) / 8 = position / 8 + 1 := by omega
  unfold bit
  rw [hdiv, Nat.add_mod_left, List.getD_cons_succ]

theorem count_bit :
    Nat.count (fun position => bitmap.bit position) (8 * bitmap.length) = bitmap.onesCount := by
  induction bitmap with
  | nil => rfl
  | cons byte bitmap ih =>
    have hlength : 8 * (byte :: bitmap).length = 8 + 8 * bitmap.length := by
      rw [List.length_cons]
      omega
    have hfirst : Nat.count (fun index => bit (byte :: bitmap) index) 8 = onesCount8 byte := by
      unfold onesCount8
      rw [Nat.count_eq_card_filter_range, Nat.count_eq_card_filter_range,
        Finset.filter_congr fun index hindex => by
          rw [bit_cons_of_lt byte bitmap (Finset.mem_range.1 hindex)]]
    rw [hlength, Nat.count_add, hfirst]
    simp only [bit_cons_add]
    rw [ih]
    rfl

theorem card_positions : bitmap.positions.card = bitmap.onesCount := by
  unfold positions
  rw [← Nat.count_eq_card_filter_range, count_bit]

/-! ## The members of a group -/

section Members

variable {K : Type} [DecidableEq K]

/-- The members of a group at some positions. -/
def membersAt (group : List K) (positions : Finset Nat) : Finset K :=
  positions.biUnion fun position => group[position]?.toFinset

variable {group : List K} {positions : Finset Nat}

theorem mem_membersAt {key : K} :
    key ∈ membersAt group positions ↔ ∃ position ∈ positions, group[position]? = some key := by
  simp [membersAt, Option.mem_toFinset]

theorem card_membersAt (hdistinct : group.Nodup)
    (h : ∀ position ∈ positions, position < group.length) :
    (membersAt group positions).card = positions.card := by
  unfold membersAt
  rw [Finset.card_biUnion]
  · refine (Finset.sum_congr rfl fun position hposition => ?_).trans (Finset.card_eq_sum_ones _).symm
    rw [List.getElem?_eq_getElem (h position hposition)]
    rfl
  intro i hi j hj hne
  rw [Function.onFun, List.getElem?_eq_getElem (h i hi), List.getElem?_eq_getElem (h j hj)]
  simp only [Option.toFinset_some, Finset.disjoint_singleton]
  intro heq
  exact hne (hdistinct.getElem_inj_iff.1 heq)

/-- Two sets of positions share at least what they have more than the group has members. -/
theorem card_add_card_le (hdistinct : group.Nodup) {left right : Finset Nat}
    (hleft : ∀ position ∈ left, position < group.length)
    (hright : ∀ position ∈ right, position < group.length) :
    left.card + right.card ≤ group.length + (membersAt group left ∩ membersAt group right).card := by
  have hunion : (membersAt group left ∪ membersAt group right).card ≤ group.length := by
    rw [← List.toFinset_card_of_nodup hdistinct]
    refine Finset.card_le_card fun key hkey => ?_
    rw [List.mem_toFinset]
    rcases Finset.mem_union.1 hkey with hkey | hkey <;>
      obtain ⟨position, -, hmember⟩ := mem_membersAt.1 hkey <;>
      exact List.mem_of_getElem? hmember
  have hcards := Finset.card_inter_add_card_union (membersAt group left) (membersAt group right)
  rw [card_membersAt hdistinct hleft, card_membersAt hdistinct hright] at hcards
  omega

end Members

end Bitmap

end KleverGo
