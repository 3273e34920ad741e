import HdlModule.Identifier.Reserved
import HdlModule.Proofs.Search
import Mathlib.Data.String.Basic

/-!
# The table of reserved words

The table of reserved words is searched by halving, which is right because the words ascend in
it. They are ordered by their characters, with digits in front of the underscore and the underscore
in front of the letters.

## Main results

* `pairwise_reservedKeywords`: the words of the table ascend
* `isReserved_iff`: a word is reserved if its form in lower case is in the table
-/

namespace HdlModule

/-- Each word of the table is smaller than the next one. -/
theorem isChain_reservedKeywords : reservedKeywords.IsChain (· < ·) := by
  decide +kernel

/-- **The words of the table ascend.** -/
theorem pairwise_reservedKeywords : reservedKeywords.Pairwise (· < ·) :=
  List.isChain_iff_pairwise.1 isChain_reservedKeywords

/-- **A word is reserved if its form in lower case is in the table.** -/
theorem isReserved_iff {word : String} :
    isReserved word = true ↔ word.toLower ∈ reservedKeywords := by
  unfold isReserved
  exact isOk_binarySearch_toArray_iff pairwise_reservedKeywords

end HdlModule
