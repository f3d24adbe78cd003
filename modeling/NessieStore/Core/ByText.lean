import NessieStore.Core.Ascending
import NessieStore.Lib.SortBy

/-!
# Digests in the order of their texts

The source sorts digests by `to_string()` wherever an order is wanted: the names of a root tree, the
inventory of a scrub. A set of digests has one such listing, `byText`, whatever order it was
enumerated in.
-/

set_option autoImplicit false

namespace NessieStore

open Lib

/-- What a digest is sorted by. -/
def textKey (d : Digest) : List Nat := nameKey d.toText

theorem textKey_injective : Function.Injective textKey :=
  fun _ _ h => Digest.toText_injective (nameKey_injective h)

/-- The order of the texts. -/
abbrev TextLe : Digest → Digest → Prop := KeyLe textKey

/-- A set of digests in the order of their texts. -/
def byText (ds : Finset Digest) : List Digest := sortBy textKey_injective ds

theorem mem_byText {ds : Finset Digest} {d : Digest} : d ∈ byText ds ↔ d ∈ ds :=
  mem_sortBy textKey_injective

theorem length_byText (ds : Finset Digest) : (byText ds).length = ds.card :=
  length_sortBy textKey_injective ds

theorem nodup_byText (ds : Finset Digest) : (byText ds).Nodup := nodup_sortBy textKey_injective ds

theorem byText_ascending (ds : Finset Digest) :
    (byText ds).Pairwise fun d d' => nameKey d.toText < nameKey d'.toText :=
  sortBy_ascending textKey_injective ds

end NessieStore
