/-
# The FAT as a map

Seen through `link_fat`, the FAT is a map from clusters to links, and a call of `link_fat` is an
update of that map: the link that was written is read back, and every other cluster keeps its own.
This holds of the machine with its buffers, for entries of 12, 16 and 28 bits, where the entries of
two neighbours share a byte as well as where an entry lies in two sectors.
-/
import SdcBoot.Fat.Space

namespace SdcBoot.Fat

open Lib Block

/-! ## 1. What is read -/

/-- What `link_fat` answers to a read of the entry of `c`. -/
def readLink (v : Dpb) (s : Machine Mem) (c : Nat) : Option Nat :=
  ((linkFat v c READ_CLUSTER).exec (cached Mem v.area) s).map Prod.fst

section

variable {v : Dpb} (hv : v.WF)
include hv

variable {s : Machine Mem} {f : Flat Mem} {c : Nat}

/-- The plain disk that the program sees behind the buffers. -/
theorem agree_view (hquiet : Quiet v.area s.cache) :
    Agree Mem v.area s ⟨s.cache.view v.dpbUnit, s.mem⟩ :=
  ⟨hquiet, hv.copies, rfl, fun _ _ => rfl⟩

theorem readLink_eq (h : Agree Mem v.area s f) (hc : 2 ≤ c)
    (hmax : c ≤ v.maxCluster) : readLink v s c = some (link v f.disk c) := by
  have hflat : (linkFat v c READ_CLUSTER).Meets (flat Mem v.area) f
      fun r _ => r = link v f.disk c := ⟨_, f, linkFat_read hv hc hmax f, rfl⟩
  obtain ⟨r, s', hexec, f', -, hr⟩ := cached_sim h hflat
  rw [readLink, hexec, ← hr]
  rfl

/-! ## 2. One write -/

/-- A write succeeds, and leaves buffers over a plain disk where one link has changed. -/
theorem linkFat_agree (h : Agree Mem v.area s f) {x : Nat} (hc : 2 ≤ c) (hmax : c ≤ v.maxCluster)
    (hx : v.LinkValue x) :
    (linkFat v c x).Meets (cached Mem v.area) s fun r s' =>
      r = 0 ∧ ∃ f', Agree Mem v.area s' f' ∧ Linked v f f' c x := by
  refine (cached_sim h (linkFat_write hv hc hmax hx f)).mono fun r s' hs => ?_
  obtain ⟨f', hagree, hr, hlinked⟩ := hs
  exact ⟨hr, f', hagree, hlinked⟩

end

end SdcBoot.Fat
