/-! # Times

A time is a number of milliseconds since the epoch, one word. Sums stop at the last time and
differences at zero; only a clock that is moved on goes round.
-/

namespace VersionedCatalog

abbrev Millis := UInt64

namespace Millis

def last : Millis := 0xFFFFFFFFFFFFFFFF

def plus (time span : Millis) : Millis :=
  if time.toNat + span.toNat < UInt64.size then time + span else last

def minus (time span : Millis) : Millis := if span ≤ time then time - span else 0

/-- How long ago an earlier time was, nothing if it is still to come. -/
def since (now earlier : Millis) : Millis := now.minus earlier

theorem toNat_plus (time span : Millis) :
    (time.plus span).toNat = min (time.toNat + span.toNat) (UInt64.size - 1) := by
  unfold plus
  split
  next hFits =>
    rw [UInt64.toNat_add, Nat.mod_eq_of_lt hFits]
    omega
  next hOver =>
    have hLast : last.toNat = UInt64.size - 1 := rfl
    omega

theorem toNat_minus (time span : Millis) :
    (time.minus span).toNat = time.toNat - span.toNat := by
  unfold minus
  split
  next hLe => exact UInt64.toNat_sub_of_le _ _ hLe
  next hNotLe =>
    have hLt := UInt64.not_le.mp hNotLe
    have hNat := UInt64.lt_iff_toNat_lt.mp hLt
    simp
    omega

end Millis

end VersionedCatalog
